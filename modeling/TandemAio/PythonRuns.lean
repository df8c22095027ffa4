import Mathlib
import TandemAio.Reasoning.Scopes
import TandemAio.Reasoning.Structured

/-!
# Python functions over integers

Statements over integer variables and sums as Python runs them: one set of variables for the whole
function, integers without bound. A run tells what it does with names and which integers it makes.
-/

namespace TandemAio

open Reasoning

inductive CmpOp where
  | eq
  | notEq
  | lt
  | ltE
  | gt
  | gtE
deriving DecidableEq

def CmpOp.holds {α : Type} [DecidableEq α] [LT α] [DecidableLT α] [LE α] [DecidableLE α]
    (left right : α) : CmpOp → Bool
  | .eq => decide (left = right)
  | .notEq => decide (left ≠ right)
  | .lt => decide (left < right)
  | .ltE => decide (left ≤ right)
  | .gt => decide (right < left)
  | .gtE => decide (right ≤ left)

inductive PyExpr where
  | constant (value : Nat)
  | name (id : String)
  | add (left right : PyExpr)

/-- What an `if` or a `while` tests: a chain of comparisons, an integer, or `True` and `False`. -/
inductive PyTest where
  | compare (left : PyExpr) (op : CmpOp) (right : PyExpr) (rest : List (CmpOp × PyExpr))
  | integer (value : PyExpr)
  | constant (value : Bool)

/-- An `elif` is an `if` alone in the `orelse` of another one. -/
inductive PyStmt where
  | assign (targets : List String) (value : PyExpr)
  | augAssign (target : String) (value : PyExpr)
  | ifStmt (test : PyTest) (body orelse : List PyStmt)
  | forRange (target : String) (stop : PyExpr) (body orelse : List PyStmt)
  | whileStmt (test : PyTest) (body orelse : List PyStmt)
  | breakStmt
  | continueStmt
  | passStmt
  | returnStmt (value : Option PyExpr)

structure PyFunction where
  args : List String
  body : List PyStmt

/-- What a run does that tells whether another reading of its names makes a difference. -/
inductive PyEvent where
  | uses (use : Use String)
  | computed (value : Int)
  /-- A value is given to these targets, and to one more after them. -/
  | chained (value : PyExpr) (earlier : List String)
  /-- An integer decides a branch. -/
  | truth
  /-- The `else` of a loop runs. -/
  | loopElse

/-- The variables of the function. -/
abbrev PyVars := String → Option Int

abbrev PyPiece := Piece (Option Int) PyVars PyEvent

def PyExpr.names : PyExpr → List String
  | .constant _ => []
  | .name id => [id]
  | .add left right => left.names ++ right.names

def PyExpr.eval : PyExpr → PyVars → Option (Int × List PyEvent)
  | .constant n, _ => some (n, [.computed n])
  | .name id, vars => (vars id).map fun v ↦ (v, [.uses (.read id)])
  | .add left right, vars => do
    let (a, first) ← left.eval vars
    let (b, second) ← right.eval vars
    some (a + b, first ++ second ++ [.computed (a + b)])

/-- The comparisons after a value, up to the first that fails. -/
def chainEval (left : Int) : List (CmpOp × PyExpr) → PyVars → Option (Bool × List PyEvent)
  | [], _ => some (true, [])
  | (op, right) :: rest, vars => do
    let (b, first) ← right.eval vars
    if op.holds left b then
      let (result, second) ← chainEval b rest vars
      some (result, first ++ second)
    else
      some (false, first)

def PyTest.eval : PyTest → PyVars → Option (Bool × List PyEvent)
  | .compare left op right rest, vars => do
    let (a, first) ← left.eval vars
    let (result, second) ← chainEval a ((op, right) :: rest) vars
    some (result, first ++ second)
  | .integer value, vars => do
    let (a, events) ← value.eval vars
    some (decide (a ≠ 0), events ++ [.truth])
  | .constant b, _ => some (b, [])

namespace PyStmt

/-- A variable gets a value, by an assignment or by a loop. -/
def bind (x : String) (v : Int) : PyPiece := fun vars ↦
  some ⟨.next, Function.update vars x (some v), [.uses (.bind x)]⟩

def change (x : String) (v : Int) : PyPiece := fun vars ↦
  some ⟨.next, Function.update vars x (some v), [.uses (.change x)]⟩

/-- The statements under one header. -/
def suite (p : PyPiece) : PyPiece := fun vars ↦
  (p vars).map fun r ↦ { r with events := .uses .enter :: r.events ++ [.uses .leave] }

/-- The `else` of a loop that no `break` ended. -/
def loopElse (run : List PyStmt → PyPiece) : List PyStmt → PyPiece
  | [] => .skip
  | orelse => .saying [.loopElse] (run orelse)

/-- A statement; the first argument bounds how deep it nests and how often its loops turn. -/
def exec : Nat → PyStmt → PyPiece
  | 0, _ => fun _ ↦ none
  | _ + 1, .assign targets value =>
    .eval value.eval fun v ↦
      .saying [.chained value targets.dropLast] (.seq (bind · v) targets)
  | _ + 1, .augAssign target value =>
    .eval (PyExpr.add (.name target) value).eval fun v ↦ change target v
  | fuel + 1, .ifStmt test body orelse =>
    .eval test.eval fun b ↦ suite (.seq (exec fuel) (if b then body else orelse))
  | fuel + 1, .forRange target stop body orelse =>
    .eval stop.eval fun n ↦
      .forEach (fun i : Nat ↦ suite ((bind target i).andThen (.seq (exec fuel) body)))
        (loopElse (.seq (exec fuel)) orelse) (List.range n.toNat)
  | fuel + 1, .whileStmt test body orelse =>
    .eval test.eval fun b ↦
      if b then .turn (suite (.seq (exec fuel) body)) (exec fuel (.whileStmt test body orelse))
      else loopElse (.seq (exec fuel)) orelse
  | _ + 1, .breakStmt => .jump .brk
  | _ + 1, .continueStmt => .jump .cont
  | _ + 1, .passStmt => .skip
  | _ + 1, .returnStmt none => .jump (.ret none)
  | _ + 1, .returnStmt (some value) => .eval value.eval fun v ↦ .jump (.ret (some v))

end PyStmt

/-! ## What the monitor looks for -/

/-- Reading the value again, when one of these variables has it already, reads what changed. -/
def PyExpr.rereads (earlier : List String) : PyExpr → Bool
  | .add left right => (left.add right).names.any (earlier.contains ·)
  | _ => false

namespace PyEvent

def fitsI64 : PyEvent → Bool
  | .computed v => -2 ^ 63 ≤ v && v < 2 ^ 63
  | _ => true

/-- Names are read and augmented only while the block of their last binding is open; no value has
to be read twice, no integer decides a branch, and no loop runs its `else`. -/
def inBlocks (t : Track String) : PyEvent → Option (Track String)
  | .uses use => t.step use
  | .computed _ => some t
  | .chained value earlier => if value.rereads earlier then none else some t
  | .truth => none
  | .loopElse => none

end PyEvent

namespace PyFunction

def track (f : PyFunction) : Track String := ⟨.ofList (f.args.map fun x ↦ (x, ())), []⟩

def StaysInBlocks (f : PyFunction) (trace : List PyEvent) : Prop :=
  (trace.foldlM PyEvent.inBlocks f.track).isSome

def start (f : PyFunction) (args : List Int) : PyVars := fun x ↦
  (f.args.zip args).lookup x

/-- A call with these arguments returns `v`, and does these things. -/
def Returns (f : PyFunction) (args : List Int) (v : Int) (trace : List PyEvent) : Prop :=
  args.length = f.args.length ∧ ∃ fuel vars,
    Piece.seq (PyStmt.exec fuel) f.body (f.start args) = some ⟨.ret (some v), vars, trace⟩

end PyFunction

end TandemAio
