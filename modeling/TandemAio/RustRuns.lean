import TandemAio.PythonRuns

/-!
# Rust functions over `i64`

The statements the builder emits, as Rust reads them: which functions are accepted, and what they
do. A `let` binds its name up to the end of its block, over any earlier binding of the name.
-/

namespace TandemAio

open Reasoning

inductive RustExpr where
  | literal (value : Nat)
  | name (id : String)
  | add (left right : RustExpr)

/-- Comparisons joined by `&&`, an integer, or `true` and `false`. -/
inductive RustTest where
  | all (parts : List (RustExpr × CmpOp × RustExpr))
  | integer (value : RustExpr)
  | constant (value : Bool)

/-- An `else if` is an `else` block that holds the `if`; no `else` is an empty one. -/
inductive RustStmt where
  | letMut (name : String) (value : RustExpr)
  | addAssign (name : String) (value : RustExpr)
  | ifElse (test : RustTest) (body orelse : List RustStmt)
  | forIn (name : String) (stop : RustExpr) (body : List RustStmt)
  | whileLoop (test : RustTest) (body : List RustStmt)
  | breakStmt
  | continueStmt
  | returnStmt (value : Option RustExpr)

/-- All parameters and the result are `i64`. -/
structure RustFunction where
  params : List String
  body : List RustStmt

/-! ## What is accepted -/

/-- Keywords, reserved words, `_`, and the tuple variants that are always in scope. -/
def rustReserved : List String :=
  ["as", "break", "const", "continue", "crate", "else", "enum", "extern", "false", "fn", "for",
    "if", "impl", "in", "let", "loop", "match", "mod", "move", "mut", "pub", "ref", "return",
    "self", "Self", "static", "struct", "super", "trait", "true", "type", "unsafe", "use", "where",
    "while", "async", "await", "dyn", "abstract", "become", "box", "do", "final", "macro",
    "override", "priv", "typeof", "unsized", "virtual", "yield", "try", "_", "Some", "Ok", "Err"]

/-- The names in scope, and whether their bindings are mutable. -/
abbrev RustScope := List (String × Bool)

namespace RustScope

/-- A parameter or the variable of a loop; `_` binds nothing. -/
def pattern (scope : RustScope) (x : String) : Option RustScope :=
  if x = "_" then some scope
  else if x ∈ rustReserved then none
  else some ((x, false) :: scope)

def letMut (scope : RustScope) (x : String) : Option RustScope :=
  if x ∈ rustReserved then none else some ((x, true) :: scope)

end RustScope

def RustExpr.accepted (scope : RustScope) : RustExpr → Bool
  | .literal n => n < 2 ^ 63
  | .name id => (scope.lookup id).isSome
  | .add left right => left.accepted scope && right.accepted scope

/-- The condition of a branch must be a `bool`. -/
def RustTest.accepted (scope : RustScope) : RustTest → Bool
  | .all parts => parts.all fun part ↦ part.1.accepted scope && part.2.2.accepted scope
  | .integer _ => false
  | .constant _ => true

mutual

/-- The names in scope after a statement that is accepted. -/
def RustStmt.check (scope : RustScope) : RustStmt → Option RustScope
  | .letMut x value => if value.accepted scope then scope.letMut x else none
  | .addAssign x value =>
    if scope.lookup x = some true ∧ value.accepted scope then some scope else none
  | .ifElse test body orelse =>
    if test.accepted scope ∧ (checks scope body).isSome ∧ (checks scope orelse).isSome then
      some scope
    else none
  | .forIn x stop body =>
    if stop.accepted scope then
      match scope.pattern x with
      | some inner => if (checks inner body).isSome then some scope else none
      | none => none
    else none
  | .whileLoop test body =>
    if test.accepted scope ∧ (checks scope body).isSome then some scope else none
  | .breakStmt => some scope
  | .continueStmt => some scope
  | .returnStmt (some value) => if value.accepted scope then some scope else none
  | .returnStmt none => none

def RustStmt.checks (scope : RustScope) : List RustStmt → Option RustScope
  | [] => some scope
  | s :: rest =>
    match s.check scope with
    | some scope => checks scope rest
    | none => none

end

mutual

/-- Control never comes to the end of the statement. -/
def RustStmt.diverges : RustStmt → Bool
  | .ifElse _ body orelse => anyDiverges body && anyDiverges orelse
  | .breakStmt => true
  | .continueStmt => true
  | .returnStmt _ => true
  | _ => false

def RustStmt.anyDiverges : List RustStmt → Bool
  | [] => false
  | s :: rest => s.diverges || anyDiverges rest

end

mutual

/-- The statement may end a block whose type is `i64`: its branches do, or control does not come
to its end. -/
def RustStmt.ends (diverged : Bool) : RustStmt → Bool
  | .ifElse _ body orelse => isI64 false body && isI64 false orelse
  | .forIn _ _ _ => false
  | .whileLoop _ _ => false
  | s => diverged || s.diverges

/-- The block has the type `i64`, after statements that do or do not diverge. -/
def RustStmt.isI64 (diverged : Bool) : List RustStmt → Bool
  | [] => diverged
  | [s] => s.ends diverged
  | s :: rest => isI64 (diverged || s.diverges) rest

end

def RustFunction.accepted (f : RustFunction) : Bool :=
  match f.params.foldlM RustScope.pattern [] with
  | some scope => (RustStmt.checks scope f.body).isSome && RustStmt.isI64 false f.body
  | none => false

/-! ## What it does

Only for functions that are accepted: these never read `_`, so a loop may bind it like a name.
-/

/-- The bindings of the blocks that are open. -/
abbrev RustFrames := Scopes String Int64

abbrev RustPiece := Piece (Option Int64) RustFrames Empty

def RustExpr.eval : RustExpr → RustFrames → Option Int64
  | .literal n, _ => some (Int64.ofNat n)
  | .name id, frames => frames.find id
  | .add left right, frames => do
    let a ← left.eval frames
    let b ← right.eval frames
    some (a + b)

def rustAll : List (RustExpr × CmpOp × RustExpr) → RustFrames → Option Bool
  | [], _ => some true
  | (left, op, right) :: parts, frames => do
    let a ← left.eval frames
    let b ← right.eval frames
    if op.holds a b then rustAll parts frames else some false

def RustTest.eval : RustTest → RustFrames → Option Bool
  | .all parts, frames => rustAll parts frames
  | .integer _, _ => none
  | .constant b, _ => some b

namespace RustStmt

/-- The evaluation of an expression, which shows nothing outside. -/
def silent {β : Type} (g : RustFrames → Option β) : RustFrames → Option (β × List Empty) :=
  fun frames ↦ (g frames).map fun b ↦ (b, [])

def declare (x : String) (v : Int64) : RustPiece := fun frames ↦
  some ⟨.next, frames.declare x v, []⟩

def assign (x : String) (v : Int64) : RustPiece := fun frames ↦
  some ⟨.next, frames.assign x v, []⟩

def block (p : RustPiece) : RustPiece := fun frames ↦
  (p frames.enter).map fun r ↦ { r with state := r.state.leave }

def exec : Nat → RustStmt → RustPiece
  | 0, _ => fun _ ↦ none
  | _ + 1, .letMut x value => .eval (silent value.eval) (declare x)
  | _ + 1, .addAssign x value => .eval (silent (RustExpr.add (.name x) value).eval) (assign x)
  | fuel + 1, .ifElse test body orelse =>
    .eval (silent test.eval) fun b ↦ block (.seq (exec fuel) (if b then body else orelse))
  | fuel + 1, .forIn x stop body =>
    .eval (silent stop.eval) fun n ↦
      .forEach (fun i : Nat ↦ block ((declare x (Int64.ofNat i)).andThen (.seq (exec fuel) body)))
        .skip (List.range n.toInt.toNat)
  | fuel + 1, .whileLoop test body =>
    .eval (silent test.eval) fun b ↦
      if b then .turn (block (.seq (exec fuel) body)) (exec fuel (.whileLoop test body)) else .skip
  | _ + 1, .breakStmt => .jump .brk
  | _ + 1, .continueStmt => .jump .cont
  | _ + 1, .returnStmt none => .jump (.ret none)
  | _ + 1, .returnStmt (some value) => .eval (silent value.eval) fun v ↦ .jump (.ret (some v))

end RustStmt

namespace RustFunction

def start (f : RustFunction) (args : List Int64) : RustFrames := .ofList (f.params.zip args)

/-- The function is accepted, and a call with these arguments returns `v`. -/
def Returns (f : RustFunction) (args : List Int64) (v : Int64) : Prop :=
  f.accepted ∧ args.length = f.params.length ∧ ∃ fuel frames,
    Piece.seq (RustStmt.exec fuel) f.body (f.start args) = some ⟨.ret (some v), frames, []⟩

end RustFunction

end TandemAio
