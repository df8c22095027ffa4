import TandemAio.RustRuns

/-!
# The builder's transpiler

Each statement of a Python function as the Rust statements `_RustTranspiler` emits for it, and the
runs in which the Rust function returns what the Python function does.
-/

namespace TandemAio

open Reasoning

namespace RustTranspiler

/-- `_expr` -/
def expr : PyExpr → RustExpr
  | .constant n => .literal n
  | .name id => .name id
  | .add left right => .add (expr left) (expr right)

/-- The parts of `_compare`, each with the text of its left side. -/
def compareParts (left : PyExpr) : List (CmpOp × PyExpr) → List (RustExpr × CmpOp × RustExpr)
  | [] => []
  | (op, right) :: rest => (expr left, op, expr right) :: compareParts right rest

def test : PyTest → RustTest
  | .compare left op right rest => .all (compareParts left ((op, right) :: rest))
  | .integer value => .integer (expr value)
  | .constant b => .constant b

mutual

/-- `visit_Assign` and its siblings; the `else` of a loop is not visited. -/
def visit : PyStmt → List RustStmt
  | .assign targets value => targets.map fun name ↦ .letMut name (expr value)
  | .augAssign target value => [.addAssign target (expr value)]
  | .ifStmt t body orelse => [.ifElse (test t) (visitAll body) (visitAll orelse)]
  | .forRange target stop body _ => [.forIn target (expr stop) (visitAll body)]
  | .whileStmt t body _ => [.whileLoop (test t) (visitAll body)]
  | .breakStmt => [.breakStmt]
  | .continueStmt => [.continueStmt]
  | .passStmt => []
  | .returnStmt none => [.returnStmt none]
  | .returnStmt (some value) => [.returnStmt (some (expr value))]

def visitAll : List PyStmt → List RustStmt
  | [] => []
  | s :: rest => visit s ++ visitAll rest

end

theorem visitAll_eq (body : List PyStmt) : visitAll body = body.flatMap visit := by
  induction body with
  | nil => rfl
  | cons s rest ih =>
    show visit s ++ visitAll rest = _
    rw [List.flatMap_cons, ih]

end RustTranspiler

/-- `transpile_function` -/
def transpileFunction (f : PyFunction) : RustFunction where
  params := f.args
  body := RustTranspiler.visitAll f.body

/-! ## Which functions are accepted -/

def PyExpr.inScope (scope : RustScope) : PyExpr → Bool
  | .constant n => n < 2 ^ 63
  | .name id => (scope.lookup id).isSome
  | .add left right => left.inScope scope && right.inScope scope

def PyTest.inScope (scope : RustScope) : PyTest → Bool
  | .compare left _ right rest =>
    left.inScope scope && right.inScope scope && rest.all fun part ↦ part.2.inScope scope
  | .integer _ => false
  | .constant _ => true

mutual

/-- Names are read and augmented below an assignment to them in the same or an enclosing suite,
only assigned names are augmented, tests are comparisons, `return` has a value. -/
def PyStmt.inScope (scope : RustScope) : PyStmt → Option RustScope
  | .assign targets value =>
    targets.foldlM (fun scope x ↦ if value.inScope scope then scope.letMut x else none) scope
  | .augAssign target value =>
    if scope.lookup target = some true ∧ value.inScope scope then some scope else none
  | .ifStmt test body orelse =>
    if test.inScope scope ∧ (allInScope scope body).isSome ∧ (allInScope scope orelse).isSome then
      some scope
    else none
  | .forRange target stop body _ =>
    if stop.inScope scope then
      match scope.pattern target with
      | some inner => if (allInScope inner body).isSome then some scope else none
      | none => none
    else none
  | .whileStmt test body _ =>
    if test.inScope scope ∧ (allInScope scope body).isSome then some scope else none
  | .breakStmt => some scope
  | .continueStmt => some scope
  | .passStmt => some scope
  | .returnStmt (some value) => if value.inScope scope then some scope else none
  | .returnStmt none => none

def PyStmt.allInScope (scope : RustScope) : List PyStmt → Option RustScope
  | [] => some scope
  | s :: rest =>
    match s.inScope scope with
    | some scope => allInScope scope rest
    | none => none

end

mutual

/-- Control never comes to the end of the statement. -/
def PyStmt.leaves : PyStmt → Bool
  | .ifStmt _ body orelse => anyLeaves body && anyLeaves orelse
  | .breakStmt => true
  | .continueStmt => true
  | .returnStmt _ => true
  | _ => false

def PyStmt.anyLeaves : List PyStmt → Bool
  | [] => false
  | s :: rest => s.leaves || anyLeaves rest

end

/-- There is a line for the statement. -/
def PyStmt.emits : PyStmt → Bool
  | .passStmt => false
  | .assign targets _ => !targets.isEmpty
  | _ => true

mutual

/-- The statement may come last where a value is due. -/
def PyStmt.endsWell (left : Bool) : PyStmt → Bool
  | .ifStmt _ body orelse => suiteReturns false body && suiteReturns false orelse
  | .forRange _ _ _ _ => false
  | .whileStmt _ _ _ => false
  | s => left || s.leaves

/-- The suite leaves its function or loop, and does not end with a loop, nor with an `if` of which
a branch does not. -/
def PyStmt.suiteReturns (left : Bool) : List PyStmt → Bool
  | [] => left
  | s :: rest =>
    if rest.any PyStmt.emits then suiteReturns (left || s.leaves) rest else s.endsWell left

end

/-- The names, the types and the last statements of a function are as Rust wants them. -/
def PyFunction.inScope (f : PyFunction) : Bool :=
  match f.args.foldlM RustScope.pattern [] with
  | some scope => (PyStmt.allInScope scope f.body).isSome && PyStmt.suiteReturns false f.body
  | none => false

namespace RustTranspiler

theorem expr_accepted (scope : RustScope) (e : PyExpr) :
    (expr e).accepted scope = e.inScope scope := by
  induction e with
  | constant n => rfl
  | name id => rfl
  | add left right ihl ihr =>
    unfold expr RustExpr.accepted PyExpr.inScope
    rw [ihl, ihr]

theorem compareParts_accepted (scope : RustScope) (left : PyExpr) (op : CmpOp) (right : PyExpr)
    (rest : List (CmpOp × PyExpr)) :
    ((compareParts left ((op, right) :: rest)).all fun part ↦
        part.1.accepted scope && part.2.2.accepted scope) =
      (left.inScope scope && right.inScope scope && rest.all fun part ↦ part.2.inScope scope) := by
  induction rest generalizing left op right with
  | nil =>
    show ((expr left).accepted scope && (expr right).accepted scope && true) = _
    rw [expr_accepted, expr_accepted]
    rfl
  | cons part rest ih =>
    obtain ⟨op', next⟩ := part
    have htail := ih right op' next
    rw [compareParts, List.all_cons, htail, expr_accepted, expr_accepted, List.all_cons]
    cases left.inScope scope <;> cases right.inScope scope <;> rfl

theorem test_accepted (scope : RustScope) (t : PyTest) :
    (test t).accepted scope = t.inScope scope := by
  cases t with
  | compare left op right rest => exact compareParts_accepted scope left op right rest
  | integer value => rfl
  | constant b => rfl

theorem checks_append (scope : RustScope) (first second : List RustStmt) :
    RustStmt.checks scope (first ++ second) =
      (RustStmt.checks scope first).bind fun scope ↦ RustStmt.checks scope second := by
  induction first generalizing scope with
  | nil => rfl
  | cons s rest ih =>
    rw [List.cons_append, RustStmt.checks, RustStmt.checks]
    cases s.check scope with
    | none => rfl
    | some scope => exact ih scope

theorem checks_singleton (scope : RustScope) (s : RustStmt) :
    RustStmt.checks scope [s] = s.check scope := by
  rw [RustStmt.checks]
  cases s.check scope <;> rfl

theorem checks_lets (scope : RustScope) (value : PyExpr) (targets : List String) :
    RustStmt.checks scope (targets.map fun name ↦ .letMut name (expr value)) =
      targets.foldlM (fun scope x ↦ if value.inScope scope then scope.letMut x else none)
        scope := by
  induction targets generalizing scope with
  | nil => rfl
  | cons x rest ih =>
    rw [List.map_cons, RustStmt.checks, RustStmt.check, expr_accepted, List.foldlM_cons]
    split
    · rename_i scope' hscope
      rw [hscope]
      exact ih scope'
    · rename_i hnone
      rw [hnone]
      rfl

mutual

theorem check_visit (scope : RustScope) (s : PyStmt) :
    RustStmt.checks scope (visit s) = s.inScope scope := by
  cases s with
  | assign targets value => exact checks_lets scope value targets
  | augAssign target value =>
    rw [visit, checks_singleton, RustStmt.check, expr_accepted]
    rfl
  | ifStmt t body orelse =>
    rw [visit, checks_singleton, RustStmt.check, test_accepted, checks_visitAll scope body,
      checks_visitAll scope orelse]
    rfl
  | forRange target stop body orelse =>
    rw [visit, checks_singleton, RustStmt.check, expr_accepted, PyStmt.inScope]
    split
    · cases scope.pattern target with
      | none => rfl
      | some inner =>
        dsimp only
        rw [checks_visitAll inner body]
    · rfl
  | whileStmt t body orelse =>
    rw [visit, checks_singleton, RustStmt.check, test_accepted, checks_visitAll scope body]
    rfl
  | breakStmt => rfl
  | continueStmt => rfl
  | passStmt => rfl
  | returnStmt value =>
    cases value with
    | none => rfl
    | some value =>
      rw [visit, checks_singleton, RustStmt.check, expr_accepted]
      rfl

theorem checks_visitAll (scope : RustScope) (body : List PyStmt) :
    RustStmt.checks scope (visitAll body) = PyStmt.allInScope scope body := by
  cases body with
  | nil => rfl
  | cons s rest =>
    rw [visitAll, checks_append, check_visit scope s, PyStmt.allInScope]
    cases s.inScope scope with
    | none => rfl
    | some scope => exact checks_visitAll scope rest

end

theorem anyDiverges_append (first second : List RustStmt) :
    RustStmt.anyDiverges (first ++ second) =
      (RustStmt.anyDiverges first || RustStmt.anyDiverges second) := by
  induction first with
  | nil => rfl
  | cons s rest ih =>
    rw [List.cons_append, RustStmt.anyDiverges, RustStmt.anyDiverges, ih, Bool.or_assoc]

theorem anyDiverges_lets (value : RustExpr) (targets : List String) :
    RustStmt.anyDiverges (targets.map fun name ↦ .letMut name value) = false := by
  induction targets with
  | nil => rfl
  | cons x rest ih => exact ih

mutual

theorem anyDiverges_visit (s : PyStmt) : RustStmt.anyDiverges (visit s) = s.leaves := by
  cases s with
  | assign targets value => exact anyDiverges_lets (expr value) targets
  | ifStmt t body orelse =>
    rw [visit, RustStmt.anyDiverges, RustStmt.diverges, anyDiverges_visitAll body,
      anyDiverges_visitAll orelse]
    exact Bool.or_false _
  | returnStmt value => cases value <;> rfl
  | _ => rfl

theorem anyDiverges_visitAll (body : List PyStmt) :
    RustStmt.anyDiverges (visitAll body) = PyStmt.anyLeaves body := by
  cases body with
  | nil => rfl
  | cons s rest =>
    rw [visitAll, anyDiverges_append, anyDiverges_visit s, anyDiverges_visitAll rest]
    rfl

end

theorem isI64_append (diverged : Bool) (first : List RustStmt) {second : List RustStmt}
    (h : second ≠ []) : RustStmt.isI64 diverged (first ++ second) =
      RustStmt.isI64 (diverged || RustStmt.anyDiverges first) second := by
  induction first generalizing diverged with
  | nil =>
    rw [List.nil_append, RustStmt.anyDiverges, Bool.or_false]
  | cons s rest ih =>
    have hne : rest ++ second ≠ [] := fun heq ↦ h (List.append_eq_nil_iff.mp heq).2
    obtain ⟨next, after, hcons⟩ := List.exists_cons_of_ne_nil hne
    have hstep : RustStmt.isI64 diverged (s :: (rest ++ second)) =
        RustStmt.isI64 (diverged || s.diverges) (rest ++ second) := by
      rw [hcons]
      rfl
    rw [List.cons_append, hstep, ih, RustStmt.anyDiverges, Bool.or_assoc]

theorem isI64_lets (diverged : Bool) (value : RustExpr) (targets : List String) :
    RustStmt.isI64 diverged (targets.map fun name ↦ .letMut name value) = diverged := by
  induction targets generalizing diverged with
  | nil => rfl
  | cons x rest ih =>
    cases rest with
    | nil => exact Bool.or_false diverged
    | cons y rest => exact (ih (diverged || false)).trans (Bool.or_false diverged)

theorem visit_eq_nil (s : PyStmt) : visit s = [] ↔ s.emits = false := by
  cases s with
  | assign targets value =>
    rw [visit, List.map_eq_nil_iff, PyStmt.emits, Bool.not_eq_false', List.isEmpty_iff]
  | passStmt => exact iff_of_true rfl rfl
  | returnStmt value =>
    cases value <;> exact iff_of_false (List.cons_ne_nil _ _) (by intro h; cases h)
  | _ => exact iff_of_false (List.cons_ne_nil _ _) (by intro h; cases h)

theorem visitAll_eq_nil (body : List PyStmt) :
    visitAll body = [] ↔ body.any PyStmt.emits = false := by
  induction body with
  | nil => exact iff_of_true rfl rfl
  | cons s rest ih =>
    rw [visitAll, List.append_eq_nil_iff, visit_eq_nil, ih, List.any_cons, Bool.or_eq_false_iff]

mutual

theorem isI64_visit (left : Bool) (s : PyStmt) :
    RustStmt.isI64 left (visit s) = s.endsWell left := by
  cases s with
  | assign targets value =>
    rw [visit, isI64_lets]
    exact (Bool.or_false left).symm
  | ifStmt t body orelse =>
    show (RustStmt.isI64 false (visitAll body) && RustStmt.isI64 false (visitAll orelse)) = _
    rw [isI64_visitAll false body, isI64_visitAll false orelse]
    rfl
  | passStmt => exact (Bool.or_false left).symm
  | returnStmt value => cases value <;> rfl
  | _ => rfl

theorem isI64_visitAll (left : Bool) (body : List PyStmt) :
    RustStmt.isI64 left (visitAll body) = PyStmt.suiteReturns left body := by
  cases body with
  | nil => rfl
  | cons s rest =>
    rw [visitAll, PyStmt.suiteReturns]
    split
    · rename_i hemits
      have hne : visitAll rest ≠ [] := by
        intro hnil
        rw [(visitAll_eq_nil rest).mp hnil] at hemits
        cases hemits
      rw [isI64_append _ _ hne, anyDiverges_visit s, isI64_visitAll _ rest]
    · rename_i hemits
      have hnil : visitAll rest = [] := (visitAll_eq_nil rest).mpr (Bool.eq_false_iff.mpr hemits)
      rw [hnil, List.append_nil, isI64_visit left s]

end

/-- Rust accepts exactly the functions whose names, types and last statements are as it wants
them. -/
theorem accepted_iff (f : PyFunction) : (transpileFunction f).accepted = f.inScope := by
  unfold RustFunction.accepted PyFunction.inScope transpileFunction
  dsimp only
  cases f.args.foldlM RustScope.pattern [] with
  | none => rfl
  | some scope =>
    dsimp only
    rw [checks_visitAll scope f.body, isI64_visitAll false f.body]

end RustTranspiler

/-! ## The simulation -/

namespace RustTranspiler

/-- Both languages, as long as integers fit and names stay in their blocks. -/
def coupling : Coupling (Option Int) (Option Int64) PyVars RustFrames PyEvent (Track String) where
  watch t e := if e.fitsI64 then e.inBlocks t else none
  related := Agrees fun a b ↦ b.toInt = a
  values v w := w.map Int64.toInt = v

theorem watch_computed {t t' : Track String} {v : Int}
    (h : coupling.watch t (.computed v) = some t') : t' = t ∧ -2 ^ 63 ≤ v ∧ v < 2 ^ 63 := by
  have hwatch : (if (-2 ^ 63 ≤ v && v < 2 ^ 63 : Bool) then some t else none) = some t' := h
  split at hwatch
  · rename_i hfits
    rw [Bool.and_eq_true, decide_eq_true_eq, decide_eq_true_eq] at hfits
    exact ⟨(Option.some_inj.mp hwatch).symm, hfits⟩
  · cases hwatch

theorem watch_uses {t t' : Track String} {use : Use String}
    (h : coupling.watch t (.uses use) = some t') : t.step use = some t' := h

/-- One event, and the events after it. -/
theorem watch_cons {t t' : Track String} {e : PyEvent} {events : List PyEvent}
    (h : (e :: events).foldlM coupling.watch t = some t') :
    ∃ t₁, coupling.watch t e = some t₁ ∧ events.foldlM coupling.watch t₁ = some t' :=
  Option.bind_eq_some_iff.mp h

theorem watch_append {t t' : Track String} {first second : List PyEvent}
    (h : (first ++ second).foldlM coupling.watch t = some t') :
    ∃ t₁, first.foldlM coupling.watch t = some t₁ ∧
      second.foldlM coupling.watch t₁ = some t' := by
  rw [List.foldlM_append] at h
  exact Option.bind_eq_some_iff.mp h

/-- As long as integers fit, only the names matter. -/
theorem watch_of_fits {events : List PyEvent} (h : ∀ e ∈ events, e.fitsI64) (t : Track String) :
    events.foldlM coupling.watch t = events.foldlM PyEvent.inBlocks t := by
  induction events generalizing t with
  | nil => rfl
  | cons e rest ih =>
    have hwatch : coupling.watch t e = e.inBlocks t := if_pos (h e List.mem_cons_self)
    rw [List.foldlM_cons, List.foldlM_cons, hwatch]
    congr 1
    funext t₁
    exact ih (fun e' he' ↦ h e' (List.mem_cons_of_mem e he')) t₁

theorem toInt_add_of_fits {a b : Int64} (hle : -2 ^ 63 ≤ a.toInt + b.toInt)
    (hlt : a.toInt + b.toInt < 2 ^ 63) : (a + b).toInt = a.toInt + b.toInt := by
  rw [Int64.toInt_add]
  exact Int.bmod_eq_of_le hle hlt

/-- An expression is a sum of what fits, and reading it changes nothing. -/
theorem expr_value (e : PyExpr) {vars : PyVars} {t t' : Track String} {frames : RustFrames}
    {a : Int} {events : List PyEvent} (hagrees : coupling.related vars t frames)
    (heval : e.eval vars = some (a, events)) (hwatch : events.foldlM coupling.watch t = some t') :
    t' = t ∧ ∃ b, (expr e).eval frames = some b ∧ b.toInt = a := by
  induction e generalizing a events t' with
  | constant n =>
    unfold PyExpr.eval at heval
    cases heval
    obtain ⟨t₁, hcomputed, hrest⟩ := watch_cons hwatch
    obtain ⟨rfl, _, hlt⟩ := watch_computed hcomputed
    cases hrest
    exact ⟨rfl, Int64.ofNat n, rfl, Int64.toInt_ofNat_of_lt (by omega)⟩
  | name id =>
    unfold PyExpr.eval at heval
    obtain ⟨v, hv, hpair⟩ := Option.map_eq_some_iff.mp heval
    cases hpair
    obtain ⟨t₁, hread, hrest⟩ := watch_cons hwatch
    cases hrest
    exact Agrees.read hagrees (watch_uses hread) hv
  | add left right ihl ihr =>
    unfold PyExpr.eval at heval
    obtain ⟨⟨a₁, first⟩, hl, heval⟩ := Option.bind_eq_some_iff.mp heval
    obtain ⟨⟨a₂, second⟩, hr, heval⟩ := Option.bind_eq_some_iff.mp heval
    cases heval
    obtain ⟨t₂, hwatch, hlast⟩ := watch_append hwatch
    obtain ⟨t₁, hfirst, hsecond⟩ := watch_append hwatch
    obtain ⟨rfl, b₁, hb₁, rfl⟩ := ihl hl hfirst
    obtain ⟨rfl, b₂, hb₂, rfl⟩ := ihr hr hsecond
    obtain ⟨t₃, hcomputed, hrest⟩ := watch_cons hlast
    obtain ⟨rfl, hle, hlt⟩ := watch_computed hcomputed
    cases hrest
    refine ⟨rfl, b₁ + b₂, ?_, toInt_add_of_fits hle hlt⟩
    unfold expr RustExpr.eval
    rw [hb₁, hb₂]
    rfl

theorem expr_evaluated (e : PyExpr) : Evaluated coupling (fun a b ↦ b.toInt = a) e.eval
    (RustStmt.silent (expr e).eval) := by
  intro vars t frames a events t' hagrees heval hwatch
  obtain ⟨rfl, b, hb, hvalue⟩ := expr_value e hagrees heval hwatch
  refine ⟨hagrees, b, [], ?_, hvalue⟩
  unfold RustStmt.silent
  rw [hb]
  rfl

theorem holds_toInt (op : CmpOp) (a b : Int64) : op.holds a.toInt b.toInt = op.holds a b := by
  cases op <;> unfold CmpOp.holds <;>
    simp only [ne_eq, Int64.toInt_inj, Int64.lt_iff_toInt_lt, Int64.le_iff_toInt_le]

/-- The comparisons after a value that both languages have. -/
theorem compareParts_value (rest : List (CmpOp × PyExpr)) {left : PyExpr} {vars : PyVars}
    {t t' : Track String} {frames : RustFrames} {a : Int64} {result : Bool}
    {events : List PyEvent} (hagrees : coupling.related vars t frames)
    (hleft : (expr left).eval frames = some a)
    (heval : chainEval a.toInt rest vars = some (result, events))
    (hwatch : events.foldlM coupling.watch t = some t') :
    t' = t ∧ rustAll (compareParts left rest) frames = some result := by
  induction rest generalizing left a events with
  | nil =>
    unfold chainEval at heval
    cases heval
    cases hwatch
    exact ⟨rfl, rfl⟩
  | cons part rest ih =>
    obtain ⟨op, right⟩ := part
    unfold chainEval at heval
    obtain ⟨⟨b, first⟩, hr, heval⟩ := Option.bind_eq_some_iff.mp heval
    dsimp only at heval
    unfold compareParts rustAll
    rw [hleft]
    dsimp only [Option.bind_eq_bind, Option.bind_some]
    split at heval
    · rename_i hholds
      obtain ⟨⟨result', second⟩, hrest, heval⟩ := Option.bind_eq_some_iff.mp heval
      cases heval
      obtain ⟨t₁, hfirst, hsecond⟩ := watch_append hwatch
      obtain ⟨rfl, b, hb, rfl⟩ := expr_value right hagrees hr hfirst
      rw [holds_toInt] at hholds
      rw [hb, Option.bind_some, if_pos hholds]
      exact ih hb hrest hsecond
    · rename_i hholds
      cases heval
      obtain ⟨rfl, b, hb, rfl⟩ := expr_value right hagrees hr hwatch
      rw [holds_toInt] at hholds
      rw [hb, Option.bind_some, if_neg hholds]
      exact ⟨rfl, rfl⟩

theorem test_evaluated (e : PyTest) : Evaluated coupling Eq e.eval
    (RustStmt.silent (test e).eval) := by
  intro vars t frames result events t' hagrees heval hwatch
  have hvalue : t' = t ∧ (test e).eval frames = some result := by
    cases e with
    | compare left op right rest =>
      unfold PyTest.eval at heval
      obtain ⟨⟨a, first⟩, hl, heval⟩ := Option.bind_eq_some_iff.mp heval
      obtain ⟨⟨result', second⟩, hchain, heval⟩ := Option.bind_eq_some_iff.mp heval
      cases heval
      obtain ⟨t₁, hfirst, hsecond⟩ := watch_append hwatch
      obtain ⟨rfl, b, hb, rfl⟩ := expr_value left hagrees hl hfirst
      exact compareParts_value _ hagrees hb hchain hsecond
    | integer value =>
      -- the monitor stops here
      unfold PyTest.eval at heval
      obtain ⟨⟨a, first⟩, hl, heval⟩ := Option.bind_eq_some_iff.mp heval
      cases heval
      obtain ⟨t₁, hfirst, hsecond⟩ := watch_append hwatch
      cases hsecond
    | constant b =>
      cases heval
      cases hwatch
      exact ⟨rfl, rfl⟩
  obtain ⟨rfl, hresult⟩ := hvalue
  refine ⟨hagrees, result, [], ?_, rfl⟩
  unfold RustStmt.silent
  rw [hresult]
  rfl

theorem bind_simulated (x : String) (v : Int64) :
    Simulated coupling (PyStmt.bind x v.toInt) (RustStmt.declare x v) := by
  intro vars t frames r t' hagrees hrun hwatch
  cases hrun
  obtain ⟨t₁, hbind, hrest⟩ := watch_cons hwatch
  cases hrest
  exact ⟨_, rfl, .next, Agrees.bind hagrees (watch_uses hbind) rfl⟩

theorem change_simulated (x : String) (v : Int64) :
    Simulated coupling (PyStmt.change x v.toInt) (RustStmt.assign x v) := by
  intro vars t frames r t' hagrees hrun hwatch
  cases hrun
  obtain ⟨t₁, hchange, hrest⟩ := watch_cons hwatch
  cases hrest
  exact ⟨_, rfl, .next, Agrees.change hagrees (watch_uses hchange) rfl⟩

theorem suite_simulated {p : PyPiece} {q : RustPiece} (h : Simulated coupling p q) :
    Simulated coupling (PyStmt.suite p) (RustStmt.block q) := by
  intro vars t frames r t' hagrees hrun hwatch
  obtain ⟨inner, hinner, rfl⟩ := Option.map_eq_some_iff.mp hrun
  obtain ⟨t₁, henter, hwatch⟩ := watch_cons hwatch
  obtain ⟨t₂, hbody, hlast⟩ := watch_append hwatch
  obtain ⟨t₃, hleave, hrest⟩ := watch_cons hlast
  cases hrest
  obtain ⟨inner', hq, hmatch, hagrees'⟩ := h (Agrees.enter hagrees (watch_uses henter)) hinner hbody
  refine ⟨{ inner' with state := inner'.state.leave }, ?_, hmatch,
    Agrees.leave hagrees' (watch_uses hleave)⟩
  unfold RustStmt.block
  rw [hq]
  rfl

theorem eval_declare_of_notMem {x : String} (w : Int64) {e : PyExpr} (frames : RustFrames)
    (h : x ∉ e.names) : (expr e).eval (frames.declare x w) = (expr e).eval frames := by
  induction e with
  | constant n => rfl
  | name id =>
    have hne : x ≠ id := fun heq ↦ h (List.mem_singleton.mpr heq)
    exact if_neg hne
  | add left right ihl ihr =>
    have hnames : x ∉ left.names ∧ x ∉ right.names := by
      rw [← not_or]
      exact fun hmem ↦ h (List.mem_append.mpr hmem)
    unfold expr RustExpr.eval
    rw [ihl hnames.1, ihr hnames.2]

/-- The text of the value means the same again after an earlier target has the value. -/
theorem eval_declare_of_rereads {e : PyExpr} {earlier : List String}
    (h : e.rereads earlier = false) {x : String} (hx : x ∈ earlier) {w : Int64}
    {frames : RustFrames} (hw : (expr e).eval frames = some w) :
    (expr e).eval (frames.declare x w) = some w := by
  cases e with
  | constant n => exact hw
  | name id =>
    show (Scopes.declare x w frames).find id = some w
    rw [Scopes.find_declare]
    split
    · rfl
    · exact hw
  | add left right =>
    rw [eval_declare_of_notMem w frames, hw]
    intro hmem
    unfold PyExpr.rereads at h
    rw [List.any_eq_false] at h
    exact h x hmem (List.contains_iff_mem.mpr hx)

/-- A `let` for each target, where the text of the value keeps its meaning. -/
theorem lets_simulated (fuel : Nat) {value : PyExpr} {w : Int64} {earlier : List String}
    (hkeep : value.rereads earlier = false) (targets : List String)
    (hearlier : ∀ x ∈ targets.dropLast, x ∈ earlier) {vars : PyVars} {t t' : Track String}
    {frames : RustFrames} {r : Ran (Option Int) PyVars PyEvent}
    (hagrees : coupling.related vars t frames)
    (hvalue : targets = [] ∨ (expr value).eval frames = some w)
    (hrun : Piece.seq (PyStmt.bind · w.toInt) targets vars = some r)
    (hwatch : r.events.foldlM coupling.watch t = some t') :
    ∃ r', Piece.seq (RustStmt.exec (fuel + 1))
        (targets.map fun name ↦ .letMut name (expr value)) frames = some r' ∧
      r.outcome.Matches coupling.values r'.outcome ∧ coupling.related r.state t' r'.state := by
  induction targets generalizing vars t frames r with
  | nil => exact Simulated.skip hagrees hrun hwatch
  | cons x rest ih =>
    have hw := hvalue.resolve_left (List.cons_ne_nil x rest)
    have hlet : RustStmt.exec (fuel + 1) (.letMut x (expr value)) frames =
        some ⟨.next, frames.declare x w, []⟩ := by
      show Piece.eval (RustStmt.silent (expr value).eval) (RustStmt.declare x) frames = _
      unfold Piece.eval RustStmt.silent
      rw [hw]
      rfl
    have hstep : Piece.saying [.uses (.bind x)] (Piece.seq (PyStmt.bind · w.toInt) rest)
        (Function.update vars x (some w.toInt)) = some r := hrun
    obtain ⟨t₁, after, hbind, hafter, hwatch', rfl⟩ := Piece.saying_watched hstep hwatch
    obtain ⟨t₂, hbind, hnil⟩ := watch_cons hbind
    cases hnil
    have hnext : rest = [] ∨ (expr value).eval (frames.declare x w) = some w := by
      rcases rest with _ | ⟨y, rest⟩
      · exact Or.inl rfl
      · exact Or.inr (eval_declare_of_rereads hkeep (hearlier x List.mem_cons_self) hw)
    have hrest : ∀ y ∈ rest.dropLast, y ∈ earlier := by
      intro y hy
      rcases rest with _ | ⟨z, rest⟩
      · cases hy
      · exact hearlier y (List.mem_cons_of_mem x hy)
    obtain ⟨r', hr', hmatch, hagrees'⟩ :=
      ih hrest (Agrees.bind hagrees (watch_uses hbind) rfl) hnext hafter hwatch'
    refine ⟨{ r' with events := [] ++ r'.events }, ?_, hmatch, hagrees'⟩
    rw [List.map_cons, Piece.seq, Piece.andThen, Piece.follow_some _ hlet]
    exact Piece.saying_some [] hr'

theorem assign_simulated (fuel : Nat) (targets : List String) (value : PyExpr) :
    Simulated coupling (PyStmt.exec (fuel + 1) (.assign targets value))
      (Piece.seq (RustStmt.exec (fuel + 1)) (visit (.assign targets value))) := by
  intro vars t frames r t' hagrees hrun hwatch
  have hrun' : Piece.eval value.eval (fun v ↦ .saying [.chained value targets.dropLast]
      (.seq (PyStmt.bind · v) targets)) vars = some r := hrun
  unfold Piece.eval at hrun'
  split at hrun'
  · rename_i v events hvalue
    obtain ⟨t₁, first, hevents, hfirst, hwatch₁, rfl⟩ := Piece.saying_watched hrun' hwatch
    obtain ⟨t₂, second, hchained, hsecond, hwatch₂, rfl⟩ := Piece.saying_watched hfirst hwatch₁
    obtain ⟨rfl, w, hw, rfl⟩ := expr_value value hagrees hvalue hevents
    obtain ⟨t₃, hchained, hnil⟩ := watch_cons hchained
    cases hnil
    have hkeep : value.rereads targets.dropLast = false ∧ t₂ = t₁ := by
      have hstep : (if value.rereads targets.dropLast then none else some t₁) = some t₂ := hchained
      split at hstep
      · cases hstep
      · rename_i hfalse
        exact ⟨Bool.eq_false_iff.mpr hfalse, (Option.some_inj.mp hstep).symm⟩
    obtain ⟨hkeep, rfl⟩ := hkeep
    obtain ⟨r', hlets, hmatch, hagrees'⟩ :=
      lets_simulated fuel hkeep targets (fun x hx ↦ hx) hagrees (Or.inr hw) hsecond hwatch₂
    exact ⟨r', hlets, hmatch, hagrees'⟩
  · cases hrun'

/-- The monitor stops where a loop runs its `else`. -/
theorem loopElse_simulated (run : List PyStmt → PyPiece) (orelse : List PyStmt) :
    Simulated coupling (PyStmt.loopElse run orelse) (Piece.skip : RustPiece) := by
  cases orelse with
  | nil => exact Simulated.skip
  | cons s rest =>
    intro vars t frames r t' hagrees hrun hwatch
    obtain ⟨t₁, after, helse, _⟩ := Piece.saying_watched hrun hwatch
    cases helse

/-- A loop over a range takes the same turns, since the bound is an `i64`. -/
theorem range_fits {n : Int64} {i : Nat} (hi : i ∈ List.range n.toInt.toNat) :
    (Int64.ofNat i).toInt = i := by
  have hlt := List.mem_range.mp hi
  have hn := n.toInt_lt
  exact Int64.toInt_ofNat_of_lt (by omega)

theorem exec_simulated (fuel : Nat) (s : PyStmt) : Simulated coupling (PyStmt.exec fuel s)
    (Piece.seq (RustStmt.exec fuel) (visit s)) := by
  induction fuel generalizing s with
  | zero =>
    intro vars t frames r t' _ hrun _
    cases hrun
  | succ fuel ih =>
    have hbody (body : List PyStmt) : Simulated coupling (Piece.seq (PyStmt.exec fuel) body)
        (Piece.seq (RustStmt.exec fuel) (visitAll body)) := by
      rw [visitAll_eq]
      exact Simulated.seq fun s _ ↦ ih s
    cases s with
    | assign targets value => exact assign_simulated fuel targets value
    | augAssign target value =>
      rw [visit, Piece.seq_singleton]
      apply Simulated.eval (expr_evaluated (.add (.name target) value))
      rintro _ w rfl
      exact change_simulated target w
    | ifStmt t body orelse =>
      rw [visit, Piece.seq_singleton]
      apply Simulated.eval (test_evaluated t)
      rintro b _ rfl
      apply suite_simulated
      cases b with
      | true => exact hbody body
      | false => exact hbody orelse
    | forRange target stop body orelse =>
      rw [visit, Piece.seq_singleton]
      apply Simulated.eval (expr_evaluated stop)
      rintro _ n rfl
      apply Simulated.forEach
      · intro i hi
        apply suite_simulated
        apply Simulated.andThen _ (hbody body)
        show Simulated coupling (PyStmt.bind target i) _
        rw [← range_fits hi]
        exact bind_simulated target _
      · exact loopElse_simulated _ orelse
    | whileStmt t body orelse =>
      rw [visit, Piece.seq_singleton]
      apply Simulated.eval (test_evaluated t)
      rintro b _ rfl
      cases b with
      | true =>
        apply Simulated.turn (suite_simulated (hbody body))
        have hagain := ih (.whileStmt t body orelse)
        rw [visit, Piece.seq_singleton] at hagain
        exact hagain
      | false => exact loopElse_simulated _ orelse
    | breakStmt =>
      rw [visit, Piece.seq_singleton]
      exact Simulated.jump .brk
    | continueStmt =>
      rw [visit, Piece.seq_singleton]
      exact Simulated.jump .cont
    | passStmt => exact Simulated.skip
    | returnStmt value =>
      cases value with
      | none =>
        rw [visit, Piece.seq_singleton]
        exact Simulated.jump (.ret rfl)
      | some value =>
        rw [visit, Piece.seq_singleton]
        apply Simulated.eval (expr_evaluated value)
        rintro _ w rfl
        exact Simulated.jump (.ret rfl)

theorem body_simulated (fuel : Nat) (body : List PyStmt) :
    Simulated coupling (Piece.seq (PyStmt.exec fuel) body)
      (Piece.seq (RustStmt.exec fuel) (visitAll body)) := by
  rw [visitAll_eq]
  exact Simulated.seq fun s _ ↦ exec_simulated fuel s

end RustTranspiler

/-! ## Calls -/

namespace PyFunction

theorem lookup_zip_toInt (names : List String) (args : List Int64) (x : String) :
    (names.zip (args.map Int64.toInt)).lookup x =
      ((names.zip args).lookup x).map Int64.toInt := by
  induction names generalizing args with
  | nil => rfl
  | cons name rest ih =>
    cases args with
    | nil => rfl
    | cons a args =>
      rw [List.map_cons, List.zip_cons_cons, List.zip_cons_cons, List.lookup_cons,
        List.lookup_cons, ih]
      cases x == name <;> rfl

/-- A call begins with the same values under the same names. -/
theorem start_agrees (f : PyFunction) {args : List Int64} (hlen : args.length = f.args.length) :
    RustTranspiler.coupling.related (f.start (args.map Int64.toInt)) f.track
      ((transpileFunction f).start args) := by
  constructor
  · unfold RustFunction.start track
    rw [Scopes.shape_ofList]
    have hnames : (f.args.zip args).map Prod.fst = f.args :=
      List.map_fst_zip (Nat.le_of_eq hlen.symm)
    have hblocks : (f.args.zip args).map (fun p ↦ (p.1, ())) = f.args.map fun x ↦ (x, ()) := by
      conv_rhs => rw [← hnames, List.map_map]
      rfl
    exact congrArg Scopes.ofList hblocks
  · intro x a _ ha
    unfold start at ha
    rw [lookup_zip_toInt] at ha
    obtain ⟨b, hb, hvalue⟩ := Option.map_eq_some_iff.mp ha
    exact ⟨b, (Scopes.find_ofList x _).trans hb, hvalue⟩

/-- A run that keeps within `i64` and within its blocks, of a function Rust accepts, is one of the
Rust function. -/
theorem transpiled_returns (f : PyFunction) {args : List Int64} {v : Int}
    {trace : List PyEvent} (hscope : f.inScope)
    (hreturns : f.Returns (args.map Int64.toInt) v trace)
    (hfits : ∀ e ∈ trace, e.fitsI64) (hblocks : f.StaysInBlocks trace) :
    ∃ w, (transpileFunction f).Returns args w ∧ w.toInt = v := by
  obtain ⟨hlen, fuel, vars, hrun⟩ := hreturns
  rw [List.length_map] at hlen
  obtain ⟨t, ht⟩ := Option.isSome_iff_exists.mp hblocks
  have hwatch : trace.foldlM RustTranspiler.coupling.watch f.track = some t := by
    rw [← ht]
    exact RustTranspiler.watch_of_fits hfits f.track
  obtain ⟨r, hr, hmatch, _⟩ :=
    RustTranspiler.body_simulated fuel f.body (f.start_agrees hlen) hrun hwatch
  obtain ⟨outcome, frames, events⟩ := r
  have hsilent : events = [] := by
    cases events with
    | nil => rfl
    | cons e _ => cases e
  cases hmatch with
  | @ret _ w hw =>
    obtain ⟨w, rfl, rfl⟩ := Option.map_eq_some_iff.mp hw
    exact ⟨w, ⟨(RustTranspiler.accepted_iff f).trans hscope, hlen, fuel, frames, hsilent ▸ hr⟩,
      rfl⟩

end PyFunction

namespace Sample

/-- Sums up the numbers below `n`: `s = 0`, `for i in range(n): s += i`, `return s`. -/
def sumBelow : PyFunction where
  args := ["n"]
  body :=
    [.assign ["s"] (.constant 0),
      .forRange "i" (.name "n") [.augAssign "s" (.name "i")] [],
      .returnStmt (some (.name "s"))]

/-- `x = 0`, `if n > 0: x = 1`, `return x` -/
def oneIfPositive : PyFunction where
  args := ["n"]
  body :=
    [.assign ["x"] (.constant 0),
      .ifStmt (.compare (.name "n") .gt (.constant 0) []) [.assign ["x"] (.constant 1)] [],
      .returnStmt (some (.name "x"))]

end Sample

theorem transpiled_returns_sumBelow :
    ∃ w, (transpileFunction Sample.sumBelow).Returns [3] w ∧ w.toInt = 3 := by
  refine @PyFunction.transpiled_returns Sample.sumBelow [3] 3 _ ?_ ⟨rfl, 3, _, rfl⟩ ?_ ?_
  · decide +kernel
  · decide +kernel
  · exact Eq.refl true

/-- The binding of a branch ends with it: Python returns 1, Rust 0. -/
theorem branch_forgotten : Sample.oneIfPositive.inScope ∧
    (∃ trace, Sample.oneIfPositive.Returns [1] 1 trace ∧ ∀ e ∈ trace, e.fitsI64) ∧
    (transpileFunction Sample.oneIfPositive).Returns [1] 0 ∧
    ∀ w, (transpileFunction Sample.oneIfPositive).Returns [1] w → w.toInt ≠ 1 := by
  have hrun (n : Nat) : ∃ frames, Piece.seq (RustStmt.exec (n + 2))
      (transpileFunction Sample.oneIfPositive).body
      ((transpileFunction Sample.oneIfPositive).start [1]) =
        some ⟨.ret (some 0), frames, []⟩ := ⟨_, rfl⟩
  have haccepted : (transpileFunction Sample.oneIfPositive).accepted := by decide +kernel
  refine ⟨by decide +kernel, ⟨_, ⟨rfl, 2, _, rfl⟩, by decide +kernel⟩, ?_, ?_⟩
  · obtain ⟨frames, hframes⟩ := hrun 0
    exact ⟨haccepted, rfl, 2, frames, hframes⟩
  · rintro w ⟨_, _, fuel, frames, hw⟩
    match fuel with
    | 0 => cases hw
    | 1 => cases hw
    | n + 2 =>
      obtain ⟨frames', hframes⟩ := hrun n
      rw [hframes] at hw
      cases hw
      decide

end TandemAio
