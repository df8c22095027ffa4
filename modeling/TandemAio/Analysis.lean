import Mathlib.Data.Finset.Insert
import Mathlib.Data.List.Sort
import TandemAio.Reasoning.Balance

/-!
# `analysis.py` of the CLI

The static analysis of tasks and of the helper functions that they use.
-/

open Reasoning

namespace TandemAio

/-! ## Source -/

structure Position where
  line : Nat
  column : Nat
deriving DecidableEq

/-- The syntax of a module, as far as the analysis tells nodes apart. -/
inductive SyntaxNode
  /-- `load` says whether the name is read. -/
  | name (pos : Position) (id : String) (load : Bool)
  | attr (pos : Position) (value : SyntaxNode) (attr : String)
  /-- A call, with its arguments and keywords. -/
  | call (pos : Position) (func : SyntaxNode) (arguments : List SyntaxNode)
  | lambda (pos : Position) (args : List SyntaxNode) (body : SyntaxNode)
  /-- `def` or `async def`; `returns` is the annotation of the result, if there is one. -/
  | functionDef (pos : Position) (name : String)
      (args body decorators returns typeParams : List SyntaxNode)
  /-- Any other node, by its children. -/
  | other (pos : Position) (children : List SyntaxNode)

namespace SyntaxNode

def pos : SyntaxNode → Position
  | name pos _ _ | attr pos _ _ | call pos _ _ | lambda pos _ _ |
    functionDef pos _ _ _ _ _ _ | other pos _ => pos

/-- `ast.iter_child_nodes` -/
def children : SyntaxNode → List SyntaxNode
  | name _ _ _ => []
  | attr _ value _ => [value]
  | call _ func arguments => func :: arguments
  | lambda _ args body => args ++ [body]
  | functionDef _ _ args body decorators returns typeParams =>
    args ++ body ++ decorators ++ returns ++ typeParams
  | other _ children => children

mutual

/-- The number of levels under a node. -/
def height : SyntaxNode → Nat
  | name _ _ _ => 1
  | attr _ value _ => value.height + 1
  | call _ func arguments => max func.height (maxHeight arguments) + 1
  | lambda _ args body => max (maxHeight args) body.height + 1
  | functionDef _ _ args body decorators returns typeParams =>
    max (maxHeight args) (max (maxHeight body) (max (maxHeight decorators)
      (max (maxHeight returns) (maxHeight typeParams)))) + 1
  | other _ children => maxHeight children + 1

def maxHeight : List SyntaxNode → Nat
  | [] => 0
  | node :: rest => max node.height (maxHeight rest)

end

/-- The nodes of some levels, one level after the other. -/
def levels : Nat → List SyntaxNode → List SyntaxNode
  | 0, _ => []
  | depth + 1, nodes => nodes ++ levels depth (nodes.flatMap children)

/-- `ast.walk` -/
def walk (node : SyntaxNode) : List SyntaxNode := levels node.height [node]

end SyntaxNode

/-! ## Diagnostics -/

structure Diagnostic where
  level : String
  code : String
  message : String
  file : String
  pos : Position
  task : String
deriving DecidableEq

/-- `AssignmentInfo` -/
structure AssignmentInfo where
  line : Nat
  kind : String

/-- `ModuleIndex`, as far as it is read. -/
structure ModuleIndex where
  path : String
  tree : SyntaxNode
  moduleAssignments : String → Option AssignmentInfo

/-- A value of the globals of a function: a function, with its `__module__`, or anything else.
Functions are told apart by their module and their qualified name, as in the cache. -/
inductive GlobalValue (ι : Type)
  | function (moduleName : String) (f : ι)
  | other

/-- A function object, with what `inspect.getclosurevars` finds. -/
structure FunctionObject (ι : Type) where
  name : String
  qualname : String
  /-- `__code__.co_firstlineno` -/
  firstLine : Option Nat
  nonlocals : List String
  globals : List (String × GlobalValue ι)

/-- `_find_function_node` -/
def ModuleIndex.findFunctionNode {ι : Type} (index : ModuleIndex) (func : FunctionObject ι) :
    Option SyntaxNode :=
  let isMatch : SyntaxNode → Bool
    | .functionDef _ name _ _ _ _ _ => name = func.name
    | _ => false
  match index.tree.walk.filter isMatch with
  | [] => none
  | first :: rest =>
    match func.firstLine with
    | none => some first
    | some line =>
      let distance := fun node : SyntaxNode ↦ Int.natAbs ((node.pos.line : Int) - line)
      some (firstLeast distance first rest)

/-- `_find_name_location` -/
def SyntaxNode.findNameLocation (node : SyntaxNode) (id : String) : Position :=
  let reads : SyntaxNode → Bool
    | .name _ x load => load && x = id
    | _ => false
  ((node.walk.find? reads).map SyntaxNode.pos).getD node.pos

/-! ## Calls -/

/-- `_DISALLOWED_CALLS` -/
def disallowedCalls : List (List String) :=
  [["open"], ["requests", "get"], ["requests", "post"], ["requests", "put"],
    ["requests", "delete"], ["requests", "patch"], ["requests", "request"], ["httpx", "get"],
    ["httpx", "post"], ["httpx", "put"], ["httpx", "delete"], ["httpx", "patch"],
    ["urllib", "request", "urlopen"], ["socket", "socket"]]

/-- `_DISALLOWED_ATTRIBUTE_NAMES` -/
def disallowedAttributeNames : List String :=
  ["read_bytes", "read_text", "write_bytes", "write_text"]

/-- `_qualified_name` -/
def qualifiedName : SyntaxNode → List String
  | .name _ id _ => [id]
  | .attr _ value attr => if qualifiedName value = [] then [] else qualifiedName value ++ [attr]
  | _ => []

/-- A call, by what is read of it. -/
structure CallSite where
  pos : Position
  func : SyntaxNode

mutual

/-- The calls that the visitor of `_iter_calls` collects at a node that is not its root. -/
def SyntaxNode.visit : SyntaxNode → List CallSite
  | .name _ _ _ => []
  | .attr _ value _ => value.visit
  | .call pos func arguments => ⟨pos, func⟩ :: (func.visit ++ visitAll arguments)
  -- `visit_Lambda`, and `visit_FunctionDef` of a node that is not the root
  | .lambda _ _ _ => []
  | .functionDef _ _ _ _ _ _ _ => []
  | .other _ children => visitAll children

def visitAll : List SyntaxNode → List CallSite
  | [] => []
  | node :: rest => node.visit ++ visitAll rest

end

/-- `_iter_calls` -/
def iterCalls : SyntaxNode → List CallSite
  | .functionDef _ _ _ body decorators returns _ =>
    visitAll decorators ++ visitAll body ++ visitAll returns
  | node => node.visit

/-- The name that a disallowed call is reported with. -/
def CallSite.violation (call : CallSite) : Option String :=
  let qualified := qualifiedName call.func
  if qualified ∈ disallowedCalls then some (".".intercalate qualified)
  else
    match call.func with
    | .attr _ _ attr => if attr ∈ disallowedAttributeNames then some attr else none
    | _ => none

/-- `_find_disallowed_calls` -/
def findDisallowedCalls (node : SyntaxNode) : List (CallSite × String) :=
  (iterCalls node).filterMap fun call ↦ call.violation.map fun name ↦ (call, name)

/-! ## The analysis -/

/-- `_AnalysisContext` without its cache and its stack. -/
structure AnalysisContext (ι : Type) where
  moduleName : String
  index : ModuleIndex
  immutableNames : List String
  functions : ι → FunctionObject ι

/-- The cache and the stack of `_AnalysisContext`, and the helpers whose bodies have been
analysed. -/
structure AnalysisState (ι : Type) where
  helperCache : ι → Option (List Diagnostic)
  helperStack : Finset ι
  analysed : List ι

def AnalysisState.empty {ι : Type} : AnalysisState ι := ⟨fun _ ↦ none, ∅, []⟩

/-- The answer and the new state, or nothing when the recursion has not ended in time. -/
abbrev AnalysisStep (ι α : Type) := AnalysisState ι → Option (α × AnalysisState ι)

section Steps

variable {ι : Type} (ctx : AnalysisContext ι)

def AnalysisContext.error (code message : String) (pos : Position) (task : String) : Diagnostic :=
  ⟨"error", code, message, ctx.index.path, pos, task⟩

/-- `TANDEM002`, for a module-level value that is not marked immutable. -/
def AnalysisContext.globalErrors (taskName : String) (node : SyntaxNode) (name : String)
    (assignment : AssignmentInfo) : List Diagnostic :=
  if assignment.kind ∈ ["immutable", "constant"] ∨ name ∈ ctx.immutableNames then []
  else [ctx.error "TANDEM002" ("Task reads module-level value `" ++ name ++
    "` which is not marked immutable. Wrap it in a module-level `tandem.Immutable(...)` " ++
    "binding so every node freezes in the same value.") (node.findNameLocation name) taskName]

/-- `TANDEM003`, for a helper whose analysis has found an error. -/
def AnalysisContext.helperErrors (taskName : String) (node : SyntaxNode) (name : String)
    (helperDiagnostics : List Diagnostic) : List Diagnostic :=
  if helperDiagnostics.any (·.level = "error") then
    [ctx.error "TANDEM003" ("Task reads or calls helper `" ++ name ++
      "` which violates the Tandem independence rule.") (node.findNameLocation name) taskName]
  else []

/-- The loop over `closure_vars.globals`. -/
def AnalysisContext.analyzeGlobals (helper : String → ι → AnalysisStep ι (List Diagnostic))
    (taskName : String) (node : SyntaxNode) :
    List (String × GlobalValue ι) → AnalysisStep ι (List Diagnostic)
  | [], s => some ([], s)
  | (name, value) :: rest, s =>
    match ctx.index.moduleAssignments name, value with
    | some assignment, _ => do
      let (more, s) ← analyzeGlobals helper taskName node rest s
      return (ctx.globalErrors taskName node name assignment ++ more, s)
    | none, .function moduleName f =>
      if moduleName = ctx.moduleName then do
        let (helperDiagnostics, s) ← helper name f s
        let (more, s) ← analyzeGlobals helper taskName node rest s
        return (ctx.helperErrors taskName node name helperDiagnostics ++ more, s)
      else analyzeGlobals helper taskName node rest s
    | none, .other => analyzeGlobals helper taskName node rest s

/-- `TANDEM005` -/
def AnalysisContext.missingError (taskName : String) (func : FunctionObject ι) : Diagnostic :=
  ctx.error "TANDEM005" ("Could not locate source AST for `" ++ func.qualname ++
    "`. Only source-backed Python functions can be analyzed and compiled.") ⟨1, 0⟩ taskName

/-- `TANDEM001`, for the values that a function captures. -/
def AnalysisContext.captureErrors (taskName : String) (node : SyntaxNode)
    (func : FunctionObject ι) : List Diagnostic :=
  (func.nonlocals.insertionSort (· ≤ ·)).map fun name ↦
    ctx.error "TANDEM001" ("Task captures outer-scope value `" ++ name ++
      "`. Tandem tasks must not depend on closure state unless the value is moved to a " ++
      "module-level `tandem.Immutable(...)` binding.") (node.findNameLocation name) taskName

/-- `TANDEM004`, for direct input and output. -/
def AnalysisContext.callErrors (taskName : String) (node : SyntaxNode) : List Diagnostic :=
  (findDisallowedCalls node).map fun (call, callName) ↦
    ctx.error "TANDEM004" ("Task performs unrouted I/O via `" ++ callName ++
      "`. Use a Tandem runtime interface instead of direct file or network access.") call.pos
      taskName

/-- `_analyze_function`, with `_analyze_helper` as it is called from it. -/
def AnalysisContext.analyzeFunction (helper : String → ι → AnalysisStep ι (List Diagnostic))
    (taskName : String) (func : FunctionObject ι) : AnalysisStep ι (List Diagnostic) := fun s ↦
  match ctx.index.findFunctionNode func with
  | none => some ([ctx.missingError taskName func], s)
  | some node => do
    let (globals, s) ← ctx.analyzeGlobals helper taskName node func.globals s
    return (ctx.captureErrors taskName node func ++ globals ++ ctx.callErrors taskName node, s)

/-- `TANDEM006`, for a helper that is on the stack. -/
def AnalysisContext.recursionError (helperName : String) (func : FunctionObject ι) : Diagnostic :=
  ctx.error "TANDEM006" ("Helper `" ++ helperName ++ "` is recursive or mutually recursive. " ++
    "Recursive helper compilation is not supported in this scaffold.")
    (((ctx.index.findFunctionNode func).map SyntaxNode.pos).getD ⟨1, 0⟩) helperName

/-- `_analyze_helper`, for a recursion of bounded depth. -/
def AnalysisContext.analyzeHelper [DecidableEq ι] :
    Nat → String → ι → AnalysisStep ι (List Diagnostic)
  | 0, _, _ => fun _ ↦ none
  | depth + 1, helperName, f => fun s ↦
    match s.helperCache f with
    | some diagnostics => some (diagnostics, s)
    | none =>
      if f ∈ s.helperStack then some ([ctx.recursionError helperName (ctx.functions f)], s)
      else do
        let (diagnostics, s') ← ctx.analyzeFunction (analyzeHelper depth) helperName
          (ctx.functions f) { s with
            helperStack := insert f s.helperStack, analysed := f :: s.analysed }
        return (diagnostics, { s' with
          helperStack := s'.helperStack.erase f
          helperCache := Function.update s'.helperCache f (some diagnostics) })

/-- `analyze_task` -/
def AnalysisContext.analyzeTask [DecidableEq ι] (depth : Nat) (taskName : String)
    (task : FunctionObject ι) : AnalysisStep ι (List Diagnostic) :=
  ctx.analyzeFunction (ctx.analyzeHelper depth) taskName task

/-- The loop of `analyze_tasks` over the tasks, in the order that they come. -/
def AnalysisContext.analyzeTasks [DecidableEq ι] (depth : Nat) :
    List (String × FunctionObject ι) → AnalysisStep ι (List (List Diagnostic))
  | [], s => some ([], s)
  | (taskName, task) :: rest, s => do
    let (diagnostics, s) ← ctx.analyzeTask depth taskName task s
    let (more, s) ← analyzeTasks depth rest s
    return (diagnostics :: more, s)

end Steps

end TandemAio
