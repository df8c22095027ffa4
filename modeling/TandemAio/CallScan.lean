import TandemAio.HelperGraph

/-!
# Direct input and output

Which calls the analysis of a function comes to, and which of them it reports.
-/

open Reasoning

namespace TandemAio

namespace SyntaxNode

/-! ## Where a node is -/

/-- Nested functions and lambdas. -/
def isFunction : SyntaxNode → Bool
  | lambda _ _ _ => true
  | functionDef _ _ _ _ _ _ _ => true
  | _ => false

/-- A node occurs in another one, at any depth. -/
inductive Occurs (node : SyntaxNode) : SyntaxNode → Prop
  | self : Occurs node node
  | child {parent child} : child ∈ parent.children → Occurs node child → Occurs node parent

/-- A node occurs in another one, and not in a nested function or a lambda. -/
inductive OccursHere (node : SyntaxNode) : SyntaxNode → Prop
  | self : OccursHere node node
  | child {parent child} : parent.isFunction = false → child ∈ parent.children →
      OccursHere node child → OccursHere node parent

theorem occursHere_iff {node parent : SyntaxNode} : node.OccursHere parent ↔
    node = parent ∨
      parent.isFunction = false ∧ ∃ child ∈ parent.children, node.OccursHere child := by
  constructor
  · intro h
    cases h with
    | self => exact Or.inl rfl
    | child hfunction hchild hin => exact Or.inr ⟨hfunction, _, hchild, hin⟩
  · rintro (rfl | ⟨hfunction, child, hchild, hin⟩)
    · exact .self
    · exact .child hfunction hchild hin

end SyntaxNode

/-- The call occurs in the node, and not in a nested function or a lambda. -/
def CallSite.IsIn (call : CallSite) (node : SyntaxNode) : Prop :=
  ∃ arguments, (SyntaxNode.call call.pos call.func arguments).OccursHere node

theorem CallSite.isIn_iff {call : CallSite} {node : SyntaxNode} : call.IsIn node ↔
    (∃ arguments, SyntaxNode.call call.pos call.func arguments = node) ∨
      node.isFunction = false ∧ ∃ child ∈ node.children, call.IsIn child := by
  unfold CallSite.IsIn
  constructor
  · rintro ⟨arguments, h⟩
    rcases SyntaxNode.occursHere_iff.mp h with h | ⟨hfunction, child, hchild, hin⟩
    · exact Or.inl ⟨arguments, h⟩
    · exact Or.inr ⟨hfunction, child, hchild, arguments, hin⟩
  · rintro (⟨arguments, h⟩ | ⟨hfunction, child, hchild, arguments, hin⟩)
    · exact ⟨arguments, SyntaxNode.occursHere_iff.mpr (Or.inl h)⟩
    · exact ⟨arguments, SyntaxNode.occursHere_iff.mpr (Or.inr ⟨hfunction, child, hchild, hin⟩)⟩

mutual

/-- The visitor collects the calls that are in no nested function or lambda. -/
theorem mem_visit {call : CallSite} : ∀ node : SyntaxNode, call ∈ node.visit ↔ call.IsIn node
  | .name _ _ _ => by
    rw [CallSite.isIn_iff]
    simp [SyntaxNode.visit, SyntaxNode.children]
  | .attr _ value _ => by
    rw [CallSite.isIn_iff, SyntaxNode.visit, mem_visit value]
    simp [SyntaxNode.children, SyntaxNode.isFunction]
  | .call pos func arguments => by
    rw [CallSite.isIn_iff, SyntaxNode.visit, List.mem_cons, List.mem_append, mem_visit func,
      mem_visitAll arguments]
    cases call
    simp [SyntaxNode.children, SyntaxNode.isFunction]
  | .lambda _ _ _ => by
    rw [CallSite.isIn_iff]
    simp [SyntaxNode.visit, SyntaxNode.isFunction]
  | .functionDef _ _ _ _ _ _ _ => by
    rw [CallSite.isIn_iff]
    simp [SyntaxNode.visit, SyntaxNode.isFunction]
  | .other _ children => by
    rw [CallSite.isIn_iff, SyntaxNode.visit, mem_visitAll children]
    simp [SyntaxNode.children, SyntaxNode.isFunction]

theorem mem_visitAll {call : CallSite} : ∀ nodes : List SyntaxNode,
    call ∈ visitAll nodes ↔ ∃ node ∈ nodes, call.IsIn node
  | [] => by simp [visitAll]
  | node :: rest => by
    rw [visitAll, List.mem_append, mem_visit node, mem_visitAll rest]
    simp

end

/-! ## What is reported -/

/-- The callee is one of the disallowed names, or an attribute of a disallowed name. -/
inductive SyntaxNode.Disallowed : SyntaxNode → Prop
  | name {func} : qualifiedName func ∈ disallowedCalls → Disallowed func
  | byAttr {pos value attr} : attr ∈ disallowedAttributeNames →
      Disallowed (.attr pos value attr)

theorem CallSite.violation_isSome {call : CallSite} :
    call.violation.isSome = true ↔ call.func.Disallowed := by
  unfold CallSite.violation
  dsimp only
  constructor
  · intro h
    split at h
    · rename_i hname
      exact .name hname
    · split at h
      · rename_i pos value attr hfunc
        split at h
        · rename_i hattr
          rw [hfunc]
          exact .byAttr hattr
        · cases h
      · cases h
  · intro h
    obtain ⟨pos, func⟩ := call
    by_cases hname : qualifiedName func ∈ disallowedCalls
    · rw [if_pos hname]
      rfl
    · rw [if_neg hname]
      cases h with
      | name h => exact absurd h hname
      | byAttr hattr =>
        dsimp only
        rw [if_pos hattr]
        rfl

theorem mem_iterCalls {call : CallSite} {pos : Position} {name : String}
    {args body decorators returns typeParams : List SyntaxNode} :
    call ∈ iterCalls (.functionDef pos name args body decorators returns typeParams) ↔
      ∃ part ∈ decorators ++ body ++ returns, call.IsIn part := by
  have hvisited : ∀ nodes nodes' : List SyntaxNode,
      visitAll nodes ++ visitAll nodes' = visitAll (nodes ++ nodes') := by
    intro nodes nodes'
    induction nodes with
    | nil => rfl
    | cons node rest ih =>
      rw [visitAll, List.append_assoc, ih]
      rfl
  rw [iterCalls, hvisited, hvisited]
  exact mem_visitAll _

theorem mem_findDisallowedCalls {node : SyntaxNode} {call : CallSite} :
    (∃ name, (call, name) ∈ findDisallowedCalls node) ↔
      call ∈ iterCalls node ∧ call.func.Disallowed := by
  unfold findDisallowedCalls
  rw [← CallSite.violation_isSome]
  constructor
  · rintro ⟨name, hmem⟩
    obtain ⟨other, hother, hmap⟩ := List.mem_filterMap.mp hmem
    obtain ⟨name', hname, hpair⟩ := Option.map_eq_some_iff.mp hmap
    cases hpair
    exact ⟨hother, Option.isSome_iff_exists.mpr ⟨_, hname⟩⟩
  · rintro ⟨hcall, hviolation⟩
    obtain ⟨name, hname⟩ := Option.isSome_iff_exists.mp hviolation
    exact ⟨name, List.mem_filterMap.mpr ⟨call, hcall, by rw [hname]; rfl⟩⟩

section Reports

variable {ι : Type} {ctx : AnalysisContext ι} {func : FunctionObject ι} {node : SyntaxNode}
  {helper : String → ι → AnalysisStep ι (List Diagnostic)} {taskName : String}
  {s s' : AnalysisState ι} {diagnostics : List Diagnostic}

/-- What the analysis of a function whose source is found answers. -/
theorem analyzeFunction_some (hnode : ctx.index.findFunctionNode func = some node) :
    ctx.analyzeFunction helper taskName func s = some (diagnostics, s') ↔
      ∃ globals, ctx.analyzeGlobals helper taskName node func.globals s = some (globals, s') ∧
        diagnostics =
          ctx.captureErrors taskName node func ++ globals ++ ctx.callErrors taskName node := by
  unfold AnalysisContext.analyzeFunction
  rw [hnode]
  dsimp only
  constructor
  · intro h
    obtain ⟨⟨globals, s₁⟩, hglobals, h⟩ := Option.bind_eq_some_iff.mp h
    cases h
    exact ⟨globals, hglobals, rfl⟩
  · rintro ⟨globals, hglobals, rfl⟩
    exact Option.bind_eq_some_iff.mpr ⟨(globals, s'), hglobals, rfl⟩

/-- The errors that direct calls are reported with. -/
theorem mem_callErrors {d : Diagnostic} : d ∈ ctx.callErrors taskName node ↔
    ∃ call name, (call, name) ∈ findDisallowedCalls node ∧
      d = ctx.error "TANDEM004" ("Task performs unrouted I/O via `" ++ name ++
        "`. Use a Tandem runtime interface instead of direct file or network access.") call.pos
        taskName := by
  unfold AnalysisContext.callErrors
  rw [List.mem_map]
  constructor
  · rintro ⟨⟨call, name⟩, hmem, rfl⟩
    exact ⟨call, name, hmem, rfl⟩
  · rintro ⟨call, name, hmem, rfl⟩
    exact ⟨(call, name), hmem, rfl⟩

/-- Every task is analysed. -/
theorem analyzeTasks_each [DecidableEq ι] {depth : Nat} {tasks : List (String × FunctionObject ι)}
    {answers : List (List Diagnostic)} (h : ctx.analyzeTasks depth tasks s = some (answers, s')) :
    List.Forall₂ (fun task diagnostics ↦ ∃ s₁ s₂,
      ctx.analyzeTask depth task.1 task.2 s₁ = some (diagnostics, s₂)) tasks answers := by
  induction tasks generalizing s answers with
  | nil =>
    cases h
    exact .nil
  | cons task rest ih =>
    unfold AnalysisContext.analyzeTasks at h
    obtain ⟨⟨diagnostics, s₁⟩, htask, h⟩ := Option.bind_eq_some_iff.mp h
    obtain ⟨⟨more, s₂⟩, hrest, h⟩ := Option.bind_eq_some_iff.mp h
    cases h
    exact .cons ⟨s, s₁, htask⟩ (ih hrest)

/-- What makes a function violate the rule itself, if its definition is found. -/
theorem violates_iff {pos : Position} {name : String}
    {args body decorators returns typeParams : List SyntaxNode}
    (hnode : ctx.index.findFunctionNode func =
      some (.functionDef pos name args body decorators returns typeParams)) :
    ctx.Violates func ↔
      func.nonlocals ≠ [] ∨ (∃ entry ∈ func.globals, ctx.IsMutable entry.1) ∨
      ∃ part ∈ decorators ++ body ++ returns, ∃ callPos callee arguments,
        (SyntaxNode.call callPos callee arguments).OccursHere part ∧ callee.Disallowed := by
  have hcalls : findDisallowedCalls
      (.functionDef pos name args body decorators returns typeParams) ≠ [] ↔
      ∃ part ∈ decorators ++ body ++ returns, ∃ callPos callee arguments,
        (SyntaxNode.call callPos callee arguments).OccursHere part ∧ callee.Disallowed := by
    constructor
    · intro hne
      obtain ⟨⟨call, callName⟩, hmem⟩ := List.exists_mem_of_ne_nil _ hne
      obtain ⟨hcall, hdisallowed⟩ := mem_findDisallowedCalls.mp ⟨callName, hmem⟩
      obtain ⟨part, hpart, arguments, hin⟩ := mem_iterCalls.mp hcall
      exact ⟨part, hpart, call.pos, call.func, arguments, hin, hdisallowed⟩
    · rintro ⟨part, hpart, callPos, callee, arguments, hin, hdisallowed⟩
      have hcall : (⟨callPos, callee⟩ : CallSite) ∈
          iterCalls (.functionDef pos name args body decorators returns typeParams) :=
        mem_iterCalls.mpr ⟨part, hpart, arguments, hin⟩
      obtain ⟨callName, hmem⟩ := mem_findDisallowedCalls.mpr ⟨hcall, hdisallowed⟩
      exact List.ne_nil_of_mem hmem
  rw [← hcalls]
  constructor
  · exact fun h ↦ h _ hnode
  · intro h node hnode'
    cases hnode.symm.trans hnode'
    exact h

/-! ## Which definition is analysed -/

namespace SyntaxNode

/-- A definition of the name. -/
def isDef (name : String) : SyntaxNode → Bool
  | functionDef _ defName _ _ _ _ _ => defName = name
  | _ => false

/-- The line that the code of a definition begins with: that of its first decorator, if it has
one. -/
def firstLine : SyntaxNode → Nat
  | functionDef pos _ _ _ decorators _ _ => (decorators.head?.map (·.pos.line)).getD pos.line
  | node => node.pos.line

/-- How far the `def` is from a line. -/
def gap (line : Nat) (node : SyntaxNode) : Nat := Int.natAbs ((node.pos.line : Int) - line)

end SyntaxNode

namespace ModuleIndex

/-- The definitions of a name, in the order of `ast.walk`. -/
def definitions (index : ModuleIndex) (name : String) : List SyntaxNode :=
  index.tree.walk.filter (SyntaxNode.isDef name)

/-- The function is compiled from the definition. -/
structure Compiles (index : ModuleIndex) (func : FunctionObject ι) (node : SyntaxNode) : Prop where
  isDef : node ∈ index.definitions func.name
  line : func.firstLine = some node.firstLine

/-- No definition of the same name has its `def` nearer to where the code of this one begins, or as
near and before it in the order of `ast.walk`. -/
def Nearest (index : ModuleIndex) (name : String) (node : SyntaxNode) : Prop :=
  ∃ before after, index.definitions name = before ++ node :: after ∧
    (∀ other ∈ before, node.gap node.firstLine < other.gap node.firstLine) ∧
    ∀ other ∈ after, node.gap node.firstLine ≤ other.gap node.firstLine

theorem Compiles.name {index : ModuleIndex} {pos : Position} {name : String}
    {args body decorators returns typeParams : List SyntaxNode}
    (h : index.Compiles func (.functionDef pos name args body decorators returns typeParams)) :
    func.name = name := by
  have hdef := (List.mem_filter.mp h.isDef).2
  exact (of_decide_eq_true hdef).symm

/-- The definition of a function is found exactly if it is the nearest of its name. -/
theorem Compiles.found_iff {index : ModuleIndex} (h : index.Compiles func node) :
    index.findFunctionNode func = some node ↔ index.Nearest func.name node := by
  have hmem := h.isDef
  unfold findFunctionNode Nearest
  rw [h.line]
  dsimp only
  split
  · rename_i hnone
    have hall : index.definitions func.name = [] := hnone
    rw [hall] at hmem
    cases hmem
  · rename_i first rest hsome
    have hall : index.definitions func.name = first :: rest := hsome
    rw [hall, Option.some.injEq]
    exact firstLeast_eq_iff

/-- The only definition of its name is the nearest. -/
theorem nearest_of_only {index : ModuleIndex} {name : String}
    (h : index.definitions name = [node]) : index.Nearest name node :=
  ⟨[], [], h, by simp, by simp⟩

end ModuleIndex

/-- The analysis of tasks ends.  Every call in the body of a task that is in no nested function or
lambda, and whose callee is disallowed, is reported if no other definition of the task's name is
nearer to where the code of its own begins. -/
theorem direct_io_reported [DecidableEq ι] [Fintype ι] (ctx : AnalysisContext ι)
    (tasks : List (String × FunctionObject ι)) (more : Nat) :
    ∃ answers s', ctx.analyzeTasks (Fintype.card ι + 1 + more) tasks .empty = some (answers, s') ∧
      List.Forall₂ (fun task diagnostics ↦
        ∀ pos name args body decorators returns typeParams,
          ctx.index.Compiles task.2
            (.functionDef pos name args body decorators returns typeParams) →
          ctx.index.Nearest name (.functionDef pos name args body decorators returns typeParams) →
          ∀ stmt ∈ body, ∀ callPos callee arguments,
            (SyntaxNode.call callPos callee arguments).OccursHere stmt → callee.Disallowed →
            ∃ d ∈ diagnostics, d.code = "TANDEM004" ∧ d.level = "error" ∧ d.task = task.1 ∧
              d.pos = callPos) tasks answers := by
  obtain ⟨answers, s', hanswers, -, -⟩ := analyzeTasks_finds ctx tasks more soundState_empty rfl
  refine ⟨answers, s', hanswers, (analyzeTasks_each hanswers).imp ?_⟩
  rintro ⟨taskName, func⟩ diagnostics ⟨s₁, s₂, htask⟩ pos name args body decorators returns
    typeParams hcompiles hnearest stmt hstmt callPos callee arguments hcall hdisallowed
  obtain rfl : func.name = name := hcompiles.name
  obtain ⟨globals, -, rfl⟩ :=
    (analyzeFunction_some (hcompiles.found_iff.mpr hnearest)).mp htask
  have hvisited : (⟨callPos, callee⟩ : CallSite) ∈
      iterCalls (.functionDef pos func.name args body decorators returns typeParams) :=
    mem_iterCalls.mpr ⟨stmt, by simp [hstmt], arguments, hcall⟩
  obtain ⟨callName, hmem⟩ := mem_findDisallowedCalls.mpr ⟨hvisited, hdisallowed⟩
  refine ⟨_, List.mem_append_right _ (mem_callErrors.mpr ⟨_, callName, hmem, rfl⟩), ?_⟩
  exact ⟨rfl, rfl, rfl, rfl⟩

end Reports

namespace AnalysisSample

/-- `open(path)`, at a position. -/
def openCall (line : Nat) : SyntaxNode :=
  .call ⟨line, 4⟩ (.name ⟨line, 4⟩ "open" true) [.name ⟨line, 9⟩ "path" true]

/-- `def main(path):` and one statement. -/
def mainDef (stmt : SyntaxNode) : SyntaxNode :=
  .functionDef ⟨1, 0⟩ "main" [.other ⟨1, 9⟩ []] [stmt] [] [] []

/-- A statement of the calls in a list comprehension. -/
def comprehension : SyntaxNode := .other ⟨2, 4⟩ [.other ⟨2, 4⟩ [openCall 2]]

/-- A statement of a call in a lambda. -/
def inLambda : SyntaxNode := .other ⟨2, 4⟩ [.lambda ⟨2, 4⟩ [] (openCall 2)]

/-- A module of one task without helpers. -/
def project (stmt : SyntaxNode) : AnalysisContext Empty where
  moduleName := "app"
  index := ⟨"app.py", .other ⟨1, 0⟩ [mainDef stmt], fun _ ↦ none⟩
  immutableNames := []
  functions := Empty.elim

def mainTask : FunctionObject Empty := ⟨"main", "main", some 1, [], []⟩

/-- `def main(path):` with a decorator, and the call in its body. -/
def twinDef : SyntaxNode :=
  .functionDef ⟨3, 0⟩ "main" [.other ⟨3, 9⟩ []] [openCall 4] [.name ⟨2, 1⟩ "task" true] [] []

/-- The task of that definition. -/
def twinTask : FunctionObject Empty := ⟨"main", "main", some 2, [], []⟩

/-- A module with another definition of the name, one line before the decorator. -/
def twinProject : AnalysisContext Empty where
  moduleName := "app"
  index := ⟨"app.py", .other ⟨1, 0⟩ [
    .functionDef ⟨1, 0⟩ "main" [] [.other ⟨1, 12⟩ []] [] [] [],
    twinDef], fun _ ↦ none⟩
  immutableNames := []
  functions := Empty.elim

end AnalysisSample

open AnalysisSample in
theorem direct_io_reported_comprehension :
    ∃ answers s', (project comprehension).analyzeTasks 1 [("main", mainTask)] .empty =
        some ([answers], s') ∧
      ∃ d ∈ answers, d.code = "TANDEM004" ∧ d.level = "error" ∧ d.task = "main" ∧
        d.pos = ⟨2, 4⟩ := by
  obtain ⟨answers, s', hanswers, hall⟩ :=
    direct_io_reported (project comprehension) [("main", mainTask)] 0
  obtain ⟨diagnostics, rest, hreported, hrest, rfl⟩ := List.forall₂_cons_left_iff.mp hall
  cases hrest
  have honly : (project comprehension).index.definitions "main" = [mainDef comprehension] := rfl
  have hcall : (openCall 2).OccursHere comprehension :=
    .child rfl List.mem_cons_self (.child rfl List.mem_cons_self .self)
  exact ⟨diagnostics, s', hanswers, hreported _ _ _ _ _ _ _ ⟨honly ▸ List.mem_cons_self, rfl⟩
    (ModuleIndex.nearest_of_only honly) comprehension List.mem_cons_self _ _ _ hcall
    (.name (by decide))⟩

open AnalysisSample in
/-- A call in a lambda is not reported, even if the task is the only function of its name. -/
theorem lambda_io_unreported : ¬∀ (ctx : AnalysisContext Empty) (func : FunctionObject Empty)
    (taskName : String) (depth : Nat) (s s' : AnalysisState Empty) (diagnostics : List Diagnostic)
    (pos : Position) (name : String) (args body decorators returns typeParams : List SyntaxNode),
    ctx.index.Compiles func (.functionDef pos name args body decorators returns typeParams) →
    ctx.analyzeTask depth taskName func s = some (diagnostics, s') →
    ∀ (callPos : Position) (callee : SyntaxNode) (arguments : List SyntaxNode),
      (∃ stmt ∈ body, (SyntaxNode.call callPos callee arguments).Occurs stmt) →
      callee.Disallowed → ∃ d ∈ diagnostics, d.code = "TANDEM004" ∧ d.pos = callPos := by
  intro h
  have hanalysis : (project inLambda).analyzeTask 1 "main" mainTask .empty =
      some ([], .empty) := rfl
  have honly : (project inLambda).index.definitions "main" = [mainDef inLambda] := rfl
  have hcall : (openCall 2).Occurs inLambda :=
    .child List.mem_cons_self (.child List.mem_cons_self .self)
  obtain ⟨d, hd, -⟩ := h (project inLambda) mainTask "main" 1 .empty .empty [] _ _ _ _ _ _ _
    ⟨honly ▸ List.mem_cons_self, rfl⟩ hanalysis _ _ _ ⟨inLambda, List.mem_cons_self, hcall⟩
    (.name (by decide))
  cases hd

open AnalysisSample in
/-- With another definition of the name as near to the decorator as its own, a task is analysed by
the other one. -/
theorem twin_io_unreported :
    twinProject.index.Compiles twinTask twinDef ∧ ¬twinProject.index.Nearest "main" twinDef ∧
      twinProject.analyzeTask 1 "main" twinTask .empty = some ([], .empty) := by
  have hcompiles : twinProject.index.Compiles twinTask twinDef :=
    ⟨List.mem_cons_of_mem _ List.mem_cons_self, rfl⟩
  refine ⟨hcompiles, fun hnearest ↦ ?_, rfl⟩
  have hfound := hcompiles.found_iff.mpr hnearest
  cases hfound

end TandemAio
