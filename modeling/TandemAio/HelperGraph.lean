import Mathlib.Data.Fintype.Card
import Mathlib.Logic.Relation
import TandemAio.Analysis

/-!
# Helpers that refer to each other

The analysis of helpers is a depth-first search of the graph of references between them.  What it
caches while a cycle is still open is right all the same: whatever is found on the stack reaches
the helper that is being analysed, and so lies on a cycle with it.
-/

open Relation

namespace TandemAio

variable {ι : Type}

/-! ## What is to be found -/

/-- `has_errors` -/
def hasErrors (diagnostics : List Diagnostic) : Bool := diagnostics.any (·.level = "error")

namespace AnalysisContext

/-- A module-level value that is not marked immutable. -/
def IsMutable (ctx : AnalysisContext ι) (name : String) : Prop :=
  ∃ assignment, ctx.index.moduleAssignments name = some assignment ∧
    ¬(assignment.kind ∈ ["immutable", "constant"] ∨ name ∈ ctx.immutableNames)

/-- The helper that a global of a function is, if it is one. -/
def helper? (ctx : AnalysisContext ι) (entry : String × GlobalValue ι) : Option ι :=
  match ctx.index.moduleAssignments entry.1, entry.2 with
  | none, .function moduleName f => if moduleName = ctx.moduleName then some f else none
  | _, _ => none

/-- The helpers that a function refers to. -/
def helpersOf (ctx : AnalysisContext ι) (func : FunctionObject ι) : List ι :=
  func.globals.filterMap ctx.helper?

/-- The function has a violation of its own. -/
def Violates (ctx : AnalysisContext ι) (func : FunctionObject ι) : Prop :=
  ∀ node, ctx.index.findFunctionNode func = some node →
    func.nonlocals ≠ [] ∨ (∃ entry ∈ func.globals, ctx.IsMutable entry.1) ∨
      findDisallowedCalls node ≠ []

def Refers (ctx : AnalysisContext ι) (f g : ι) : Prop := g ∈ ctx.helpersOf (ctx.functions f)

/-- A function with a violation of its own, or a cycle, can be reached. -/
def Bad (ctx : AnalysisContext ι) (f : ι) : Prop :=
  ∃ g, ReflTransGen ctx.Refers f g ∧ (ctx.Violates (ctx.functions g) ∨ TransGen ctx.Refers g g)

end AnalysisContext

variable {ctx : AnalysisContext ι}

theorem bad_of_cycle {f : ι} (h : TransGen ctx.Refers f f) : ctx.Bad f :=
  ⟨f, .refl, Or.inr h⟩

theorem bad_iff {f : ι} : ctx.Bad f ↔
    ctx.Violates (ctx.functions f) ∨ ∃ g ∈ ctx.helpersOf (ctx.functions f), ctx.Bad g := by
  constructor
  · rintro ⟨g, hreach, hbad⟩
    rcases ReflTransGen.cases_head hreach with rfl | ⟨next, hnext, hrest⟩
    · rcases hbad with hviolates | hcycle
      · exact Or.inl hviolates
      · -- the next function on the cycle is on it, too
        obtain ⟨next, hnext, hback⟩ := TransGen.head'_iff.mp hcycle
        exact Or.inr ⟨next, hnext, bad_of_cycle (TransGen.tail' hback hnext)⟩
    · exact Or.inr ⟨next, hnext, g, hrest, hbad⟩
  · rintro (hviolates | ⟨g, hg, other, hreach, hbad⟩)
    · exact ⟨f, .refl, Or.inl hviolates⟩
    · exact ⟨other, hreach.head hg, hbad⟩

/-! ## Errors -/

theorem hasErrors_append (d d' : List Diagnostic) :
    hasErrors (d ++ d') = true ↔ hasErrors d = true ∨ hasErrors d' = true := by
  unfold hasErrors
  rw [List.any_append, Bool.or_eq_true]

theorem hasErrors_iff_ne_nil {d : List Diagnostic} (h : ∀ x ∈ d, x.level = "error") :
    hasErrors d = true ↔ d ≠ [] := by
  unfold hasErrors
  cases d with
  | nil => simp
  | cons x rest => simp [h x List.mem_cons_self]

theorem hasErrors_captureErrors (taskName : String) (node : SyntaxNode)
    (func : FunctionObject ι) :
    hasErrors (ctx.captureErrors taskName node func) = true ↔ func.nonlocals ≠ [] := by
  unfold AnalysisContext.captureErrors
  rw [hasErrors_iff_ne_nil]
  · rw [Ne, List.map_eq_nil_iff, ← List.length_eq_zero_iff, List.length_insertionSort,
      List.length_eq_zero_iff]
  · intro x hx
    obtain ⟨name, -, rfl⟩ := List.mem_map.mp hx
    rfl

theorem hasErrors_callErrors (taskName : String) (node : SyntaxNode) :
    hasErrors (ctx.callErrors taskName node) = true ↔ findDisallowedCalls node ≠ [] := by
  unfold AnalysisContext.callErrors
  rw [hasErrors_iff_ne_nil]
  · rw [Ne, List.map_eq_nil_iff]
  · intro x hx
    obtain ⟨call, -, rfl⟩ := List.mem_map.mp hx
    rfl

theorem hasErrors_globalErrors {taskName name : String} {node : SyntaxNode}
    {assignment : AssignmentInfo} (h : ctx.index.moduleAssignments name = some assignment) :
    hasErrors (ctx.globalErrors taskName node name assignment) = true ↔ ctx.IsMutable name := by
  unfold AnalysisContext.globalErrors AnalysisContext.IsMutable
  split
  · rename_i himmutable
    constructor
    · intro herrors
      cases herrors
    · rintro ⟨other, hother, hmutable⟩
      rw [h] at hother
      cases hother
      exact absurd himmutable hmutable
  · rename_i hmutable
    exact ⟨fun _ ↦ ⟨assignment, h, hmutable⟩, fun _ ↦ rfl⟩

theorem hasErrors_helperErrors (taskName name : String) (node : SyntaxNode)
    (diagnostics : List Diagnostic) :
    hasErrors (ctx.helperErrors taskName node name diagnostics) = true ↔
      hasErrors diagnostics = true := by
  unfold AnalysisContext.helperErrors
  unfold hasErrors
  split
  · rename_i herrors
    exact ⟨fun _ ↦ herrors, fun _ ↦ rfl⟩
  · rename_i hnone
    constructor
    · intro h
      cases h
    · intro h
      exact absurd h hnone

/-! ## The search -/

/-- The cache is right, and a helper whose body has been analysed is in the cache or on the
stack. -/
structure SoundState (ctx : AnalysisContext ι) (s : AnalysisState ι) : Prop where
  cache : ∀ f d, s.helperCache f = some d → (hasErrors d = true ↔ ctx.Bad f)
  once : s.analysed.Nodup
  known : ∀ f ∈ s.analysed, s.helperCache f ≠ none ∨ f ∈ s.helperStack

theorem soundState_empty : SoundState ctx .empty where
  cache := by
    intro f d h
    cases h
  once := List.nodup_nil
  known := by
    intro f hf
    cases hf

/-- A step answers with errors if and only if `P`, and leaves the state sound and the stack as it
was. -/
def Finds (ctx : AnalysisContext ι) (step : AnalysisStep ι (List Diagnostic))
    (s : AnalysisState ι) (P : Prop) : Prop :=
  ∃ d s', step s = some (d, s') ∧ SoundState ctx s' ∧ s'.helperStack = s.helperStack ∧
    (hasErrors d = true ↔ P)

/-- A helper is analysed, from every sound state with a stack of which it is reached. -/
def HelperFinds (ctx : AnalysisContext ι) (helper : String → ι → AnalysisStep ι (List Diagnostic))
    (stack : Finset ι) : Prop :=
  ∀ name g s, SoundState ctx s → s.helperStack = stack → (∀ f ∈ stack, TransGen ctx.Refers f g) →
    Finds ctx (helper name g) s (ctx.Bad g)

section Search

variable {helper : String → ι → AnalysisStep ι (List Diagnostic)} {stack : Finset ι}

theorem analyzeGlobals_finds (hhelper : HelperFinds ctx helper stack) (taskName : String)
    (node : SyntaxNode) (entries : List (String × GlobalValue ι)) {s : AnalysisState ι}
    (hs : SoundState ctx s) (hstack : s.helperStack = stack)
    (hreach : ∀ f ∈ stack, ∀ g ∈ entries.filterMap ctx.helper?, TransGen ctx.Refers f g) :
    Finds ctx (ctx.analyzeGlobals helper taskName node entries) s
      ((∃ entry ∈ entries, ctx.IsMutable entry.1) ∨
        ∃ g ∈ entries.filterMap ctx.helper?, ctx.Bad g) := by
  induction entries generalizing s with
  | nil => exact ⟨[], s, rfl, hs, rfl, by simp [hasErrors]⟩
  | cons entry rest ih =>
    obtain ⟨name, value⟩ := entry
    have hreachRest : ∀ f ∈ stack, ∀ g ∈ rest.filterMap ctx.helper?, TransGen ctx.Refers f g := by
      intro f hf g hg
      apply hreach f hf g
      rw [List.filterMap_cons]
      split
      · exact hg
      · exact List.mem_cons_of_mem _ hg
    cases hassignment : ctx.index.moduleAssignments name with
    | some assignment =>
      obtain ⟨more, s', hmore, hs', hstack', herrors⟩ := ih hs hstack hreachRest
      have hhelper? : ctx.helper? (name, value) = none := by
        unfold AnalysisContext.helper?
        rw [hassignment]
      refine ⟨ctx.globalErrors taskName node name assignment ++ more, s', ?_, hs', hstack', ?_⟩
      · unfold AnalysisContext.analyzeGlobals
        rw [hassignment]
        dsimp only
        rw [hmore]
        rfl
      · rw [hasErrors_append, hasErrors_globalErrors hassignment, herrors,
          List.filterMap_cons_none hhelper?, List.exists_mem_cons_iff, or_assoc]
    | none =>
      have hnone : ¬ctx.IsMutable name := by
        rintro ⟨assignment, h, -⟩
        rw [hassignment] at h
        cases h
      have hskip (hhelper? : ctx.helper? (name, value) = none)
          (hstep : ctx.analyzeGlobals helper taskName node ((name, value) :: rest) =
            ctx.analyzeGlobals helper taskName node rest) :
          Finds ctx (ctx.analyzeGlobals helper taskName node ((name, value) :: rest)) s
            ((∃ entry ∈ (name, value) :: rest, ctx.IsMutable entry.1) ∨
              ∃ g ∈ ((name, value) :: rest).filterMap ctx.helper?, ctx.Bad g) := by
        rw [hstep, List.filterMap_cons_none hhelper?, List.exists_mem_cons_iff,
          or_iff_right hnone]
        exact ih hs hstack hreachRest
      cases value with
      | other =>
        apply hskip
        · unfold AnalysisContext.helper?
          rw [hassignment]
        · funext s
          conv_lhs => unfold AnalysisContext.analyzeGlobals
          rw [hassignment]
      | function moduleName g =>
        by_cases hmodule : moduleName = ctx.moduleName
        · have hhelper? : ctx.helper? (name, .function moduleName g) = some g := by
            unfold AnalysisContext.helper?
            rw [hassignment]
            exact if_pos hmodule
          rw [List.filterMap_cons_some hhelper?] at hreach ⊢
          obtain ⟨d, s₁, hd, hs₁, hstack₁, hbad⟩ :=
            hhelper name g s hs hstack fun f hf ↦ hreach f hf g List.mem_cons_self
          obtain ⟨more, s', hmore, hs', hstack', herrors⟩ :=
            ih hs₁ (hstack₁.trans hstack) hreachRest
          refine ⟨ctx.helperErrors taskName node name d ++ more, s', ?_, hs',
            hstack'.trans hstack₁, ?_⟩
          · unfold AnalysisContext.analyzeGlobals
            rw [hassignment]
            dsimp only
            rw [if_pos hmodule, hd]
            dsimp only [bind, Option.bind]
            rw [hmore]
            rfl
          · rw [hasErrors_append, hasErrors_helperErrors, hbad, herrors,
              List.exists_mem_cons_iff, or_iff_right hnone, List.exists_mem_cons_iff]
            exact or_left_comm
        · apply hskip
          · unfold AnalysisContext.helper?
            rw [hassignment]
            exact if_neg hmodule
          · funext s
            conv_lhs => unfold AnalysisContext.analyzeGlobals
            rw [hassignment]
            exact if_neg hmodule

theorem analyzeFunction_finds (hhelper : HelperFinds ctx helper stack) (taskName : String)
    (func : FunctionObject ι) {s : AnalysisState ι} (hs : SoundState ctx s)
    (hstack : s.helperStack = stack)
    (hreach : ∀ f ∈ stack, ∀ g ∈ ctx.helpersOf func, TransGen ctx.Refers f g) :
    Finds ctx (ctx.analyzeFunction helper taskName func) s
      (ctx.Violates func ∨ ∃ g ∈ ctx.helpersOf func, ctx.Bad g) := by
  cases hnode : ctx.index.findFunctionNode func with
  | none =>
    refine ⟨[ctx.missingError taskName func], s, ?_, hs, rfl, ?_⟩
    · unfold AnalysisContext.analyzeFunction
      rw [hnode]
    · have hviolates : ctx.Violates func := by
        intro node h
        rw [hnode] at h
        cases h
      exact ⟨fun _ ↦ Or.inl hviolates, fun _ ↦ rfl⟩
  | some node =>
    obtain ⟨d, s', hd, hs', hstack', herrors⟩ :=
      analyzeGlobals_finds hhelper taskName node func.globals hs hstack hreach
    refine ⟨ctx.captureErrors taskName node func ++ d ++ ctx.callErrors taskName node, s', ?_,
      hs', hstack', ?_⟩
    · unfold AnalysisContext.analyzeFunction
      rw [hnode]
      dsimp only
      rw [hd]
      rfl
    · have hviolates : ctx.Violates func ↔ func.nonlocals ≠ [] ∨
          (∃ entry ∈ func.globals, ctx.IsMutable entry.1) ∨ findDisallowedCalls node ≠ [] := by
        constructor
        · exact fun h ↦ h node hnode
        · intro h node' hnode'
          rw [hnode] at hnode'
          cases hnode'
          exact h
      rw [hasErrors_append, hasErrors_append, hasErrors_captureErrors, hasErrors_callErrors,
        herrors, hviolates]
      unfold AnalysisContext.helpersOf
      simp only [or_comm, or_left_comm]

end Search

section Depth

variable [DecidableEq ι] [Fintype ι]

theorem analyzeHelper_finds (depth : Nat) {stack : Finset ι} (hdepth : stackᶜ.card < depth) :
    HelperFinds ctx (ctx.analyzeHelper depth) stack := by
  induction depth generalizing stack with
  | zero => exact absurd hdepth (Nat.not_lt_zero _)
  | succ depth ih =>
    intro name f s hs hstack hreach
    unfold Finds AnalysisContext.analyzeHelper
    dsimp only
    cases hcache : s.helperCache f with
    | some d => exact ⟨d, s, rfl, hs, rfl, hs.cache f d hcache⟩
    | none =>
      dsimp only
      by_cases hmem : f ∈ s.helperStack
      · -- `f` is reached from where it is on the stack
        rw [if_pos hmem]
        have hcycle : TransGen ctx.Refers f f := hreach f (hstack ▸ hmem)
        exact ⟨_, s, rfl, hs, rfl, fun _ ↦ bad_of_cycle hcycle, fun _ ↦ rfl⟩
      · rw [if_neg hmem]
        have hnew : f ∉ stack := hstack ▸ hmem
        have hpushed : SoundState ctx { s with
            helperStack := insert f s.helperStack, analysed := f :: s.analysed } := by
          refine ⟨hs.cache, List.nodup_cons.mpr ⟨fun hknown ↦ ?_, hs.once⟩, ?_⟩
          · rcases hs.known f hknown with h | h
            · exact h hcache
            · exact hmem h
          · intro g hg
            rcases List.mem_cons.mp hg with rfl | hg
            · exact Or.inr (Finset.mem_insert_self _ _)
            · exact (hs.known g hg).imp_right (Finset.mem_insert_of_mem ·)
        have hless : (insert f stack)ᶜ.card < depth := by
          have herase : (insert f stack)ᶜ = stackᶜ.erase f := Finset.compl_insert
          have hcard := Finset.card_erase_lt_of_mem (Finset.mem_compl.mpr hnew)
          rw [herase]
          omega
        have hbelow : ∀ t ∈ insert f stack, ∀ g ∈ ctx.helpersOf (ctx.functions f),
            TransGen ctx.Refers t g := by
          intro t ht g hg
          rcases Finset.mem_insert.mp ht with rfl | ht
          · exact .single hg
          · exact (hreach t ht).tail hg
        obtain ⟨d, s', hd, hs', hstack', herrors⟩ := analyzeFunction_finds (ih hless) name
          (ctx.functions f) hpushed (congrArg (insert f) hstack) hbelow
        rw [← bad_iff] at herrors
        rw [hd]
        refine ⟨d, _, rfl, ⟨?_, hs'.once, ?_⟩, ?_, herrors⟩
        · intro g d' hd'
          dsimp only at hd'
          by_cases hg : g = f
          · rw [hg, Function.update_self] at hd'
            cases hd'
            rw [hg]
            exact herrors
          · rw [Function.update_of_ne hg] at hd'
            exact hs'.cache g d' hd'
        · intro g hg
          dsimp only
          by_cases hgf : g = f
          · left
            rw [hgf, Function.update_self]
            exact Option.some_ne_none d
          · rw [Function.update_of_ne hgf]
            exact (hs'.known g hg).imp_right (Finset.mem_erase.mpr ⟨hgf, ·⟩)
        · dsimp only
          rw [hstack', hstack]
          exact Finset.erase_insert hnew

/-- The analysis of tasks ends, from every sound state with nothing on the stack. -/
theorem analyzeTasks_finds (ctx : AnalysisContext ι) (tasks : List (String × FunctionObject ι))
    (more : Nat) {s : AnalysisState ι} (hs : SoundState ctx s) (hstack : s.helperStack = ∅) :
    ∃ answers s', ctx.analyzeTasks (Fintype.card ι + 1 + more) tasks s = some (answers, s') ∧
      SoundState ctx s' ∧
      List.Forall₂ (fun task diagnostics ↦ hasErrors diagnostics = true ↔
        ctx.Violates task.2 ∨ ∃ g ∈ ctx.helpersOf task.2, ctx.Bad g) tasks answers := by
  have hhelper : HelperFinds ctx (ctx.analyzeHelper (Fintype.card ι + 1 + more)) ∅ := by
    apply analyzeHelper_finds
    have hcard : (∅ : Finset ι)ᶜ.card ≤ Fintype.card ι := Finset.card_le_univ _
    omega
  induction tasks generalizing s with
  | nil => exact ⟨[], s, rfl, hs, .nil⟩
  | cons task rest ih =>
    obtain ⟨taskName, func⟩ := task
    obtain ⟨d, s₁, hd, hs₁, hstack₁, herrors⟩ :=
      analyzeFunction_finds hhelper taskName func hs hstack fun f hf ↦ by cases hf
    obtain ⟨answers, s', hanswers, hs', hall⟩ := ih hs₁ (hstack₁.trans hstack)
    refine ⟨d :: answers, s', ?_, hs', .cons herrors hall⟩
    unfold AnalysisContext.analyzeTasks AnalysisContext.analyzeTask
    dsimp only
    rw [hd]
    dsimp only [bind, Option.bind]
    rw [hanswers]
    rfl

end Depth

end TandemAio
