import Mathlib.Data.List.Basic
import Mathlib.Logic.Function.Basic

/-!
# Block scopes and function-wide variables

Bindings of names in nested blocks, next to variables that a whole function shares. A name agrees
with its variable as long as the block of its last binding is open.
-/

namespace Reasoning

variable {V α β : Type}

namespace Scopes

/-- A binding of a name, or the start of a block. -/
inductive Entry (V α : Type) where
  | bound (x : V) (a : α)
  | start

end Scopes

/-- Nested blocks, the innermost and latest entries first. -/
abbrev Scopes (V α : Type) := List (Scopes.Entry V α)

namespace Scopes

def enter (s : Scopes V α) : Scopes V α := .start :: s

def declare (x : V) (a : α) (s : Scopes V α) : Scopes V α := .bound x a :: s

def leave : Scopes V α → Scopes V α
  | [] => []
  | .start :: s => s
  | .bound _ _ :: s => leave s

/-- The names bound since the innermost block started. -/
def opened : Scopes V α → List V
  | [] => []
  | .start :: _ => []
  | .bound x _ :: s => x :: opened s

def names : Scopes V α → List V
  | [] => []
  | .start :: s => names s
  | .bound x _ :: s => x :: names s

/-- One block with these bindings, the first ones innermost. -/
def ofList (l : List (V × α)) : Scopes V α := l.map fun p ↦ .bound p.1 p.2

/-- The names and blocks alone. -/
def shape (s : Scopes V α) : Scopes V Unit :=
  s.map fun
    | .bound x _ => .bound x ()
    | .start => .start

@[simp] theorem names_declare (x : V) (a : α) (s : Scopes V α) :
    (declare x a s).names = x :: s.names := rfl

@[simp] theorem names_enter (s : Scopes V α) : (enter s).names = s.names := rfl

@[simp] theorem shape_declare (x : V) (a : α) (s : Scopes V α) :
    (declare x a s).shape = declare x () s.shape := rfl

@[simp] theorem shape_enter (s : Scopes V α) : (enter s).shape = enter s.shape := rfl

theorem shape_ofList (l : List (V × α)) :
    (ofList l).shape = ofList (l.map fun p ↦ (p.1, ())) := by
  induction l with
  | nil => rfl
  | cons p rest ih => exact congrArg (List.cons _) ih

theorem shape_leave (s : Scopes V α) : (leave s).shape = leave s.shape := by
  induction s with
  | nil => rfl
  | cons e s ih =>
    cases e with
    | start => rfl
    | bound x a => exact ih

theorem names_shape (s : Scopes V α) : s.shape.names = s.names := by
  induction s with
  | nil => rfl
  | cons e s ih =>
    cases e with
    | start => exact ih
    | bound x a => exact congrArg (List.cons x) ih

theorem opened_shape (s : Scopes V α) : s.shape.opened = s.opened := by
  induction s with
  | nil => rfl
  | cons e s ih =>
    cases e with
    | start => rfl
    | bound x a => exact congrArg (List.cons x) ih

theorem names_leave_subset (s : Scopes V α) : (leave s).names ⊆ s.names := by
  induction s with
  | nil => exact fun x hx ↦ hx
  | cons e s ih =>
    cases e with
    | start => exact fun x hx ↦ hx
    | bound y a => exact fun x hx ↦ List.mem_cons_of_mem y (ih hx)

variable [DecidableEq V]

def find (x : V) : Scopes V α → Option α
  | [] => none
  | .start :: s => find x s
  | .bound y a :: s => if y = x then some a else find x s

/-- The innermost binding of a name gets another value. -/
def assign (x : V) (a : α) : Scopes V α → Scopes V α
  | [] => []
  | .start :: s => .start :: assign x a s
  | .bound y b :: s => if y = x then .bound y a :: s else .bound y b :: assign x a s

theorem find_ofList (x : V) (l : List (V × α)) : find x (ofList l) = l.lookup x := by
  induction l with
  | nil => rfl
  | cons p rest ih =>
    show (if p.1 = x then some p.2 else find x (ofList rest)) = _
    rw [List.lookup_cons, ih]
    by_cases heq : p.1 = x
    · rw [if_pos heq, beq_iff_eq.mpr heq.symm]
    · rw [if_neg heq, beq_false_of_ne fun h ↦ heq h.symm]

theorem find_declare (x y : V) (a : α) (s : Scopes V α) :
    find y (declare x a s) = if x = y then some a else find y s := rfl

@[simp] theorem find_enter (x : V) (s : Scopes V α) : find x (enter s) = find x s := rfl

theorem shape_assign (x : V) (a : α) (s : Scopes V α) : (assign x a s).shape = s.shape := by
  induction s with
  | nil => rfl
  | cons e s ih =>
    cases e with
    | start => exact congrArg (List.cons _) ih
    | bound y b =>
      unfold assign
      split
      · rfl
      · exact congrArg (List.cons _) ih

theorem find_assign_self {x : V} (a : α) {s : Scopes V α} (h : x ∈ s.names) :
    find x (assign x a s) = some a := by
  induction s with
  | nil => cases h
  | cons e s ih =>
    cases e with
    | start => exact ih h
    | bound y b =>
      unfold assign
      split
      · rename_i heq
        exact if_pos heq
      · rename_i hne
        rw [names, List.mem_cons] at h
        exact (if_neg hne).trans (ih (h.resolve_left fun heq ↦ hne heq.symm))

theorem find_assign_ne {x y : V} (a : α) (s : Scopes V α) (h : x ≠ y) :
    find y (assign x a s) = find y s := by
  induction s with
  | nil => rfl
  | cons e s ih =>
    cases e with
    | start => exact ih
    | bound z b =>
      unfold assign
      split
      · rename_i heq
        have hz : z ≠ y := fun hzy ↦ h (heq ▸ hzy)
        exact (if_neg hz).trans (if_neg hz).symm
      · unfold find
        rw [ih]

/-- A name that the innermost block does not bind means what it means outside. -/
theorem find_leave {x : V} {s : Scopes V α} (h : x ∉ opened s) : find x (leave s) = find x s := by
  induction s with
  | nil => rfl
  | cons e s ih =>
    cases e with
    | start => rfl
    | bound y a =>
      rw [opened, List.mem_cons, not_or] at h
      exact (ih h.2).trans (if_neg fun heq ↦ h.1 heq.symm).symm

end Scopes

/-! ## Which names agree -/

/-- What a run does with names. -/
inductive Use (V : Type) where
  | read (x : V)
  | bind (x : V)
  | change (x : V)
  | enter
  | leave

/-- The blocks that are open, and the names whose last binding was in a block that has ended. -/
structure Track (V : Type) where
  blocks : Scopes V Unit
  stale : List V

/-- The last binding of the name is in a block that is open. -/
def Track.Current (t : Track V) (x : V) : Prop := x ∈ t.blocks.names ∧ x ∉ t.stale

variable [DecidableEq V]

instance (t : Track V) (x : V) : Decidable (t.Current x) := inferInstanceAs (Decidable (_ ∧ _))

def Track.step (t : Track V) : Use V → Option (Track V)
  | .read x => if t.Current x then some t else none
  | .bind x => some ⟨t.blocks.declare x (), t.stale.filter (· ≠ x)⟩
  | .change x => if t.Current x then some t else none
  | .enter => some ⟨t.blocks.enter, t.stale⟩
  | .leave => some ⟨t.blocks.leave, t.blocks.opened ++ t.stale⟩

/-- The bindings that the blocks give the current names are those of the variables. -/
structure Agrees (rel : α → β → Prop) (vars : V → Option α) (t : Track V) (s : Scopes V β) :
    Prop where
  shape : s.shape = t.blocks
  value : ∀ x a, t.Current x → vars x = some a → ∃ b, s.find x = some b ∧ rel a b

namespace Agrees

variable {rel : α → β → Prop} {vars : V → Option α} {t t' : Track V} {s : Scopes V β}

theorem read (h : Agrees rel vars t s) {x : V} {a : α} (hstep : t.step (.read x) = some t')
    (ha : vars x = some a) : t' = t ∧ ∃ b, s.find x = some b ∧ rel a b := by
  unfold Track.step at hstep
  dsimp only at hstep
  split at hstep
  · rename_i hcurrent
    cases hstep
    exact ⟨rfl, h.value x a hcurrent ha⟩
  · cases hstep

theorem bind (h : Agrees rel vars t s) {x : V} {a : α} {b : β}
    (hstep : t.step (.bind x) = some t') (hab : rel a b) :
    Agrees rel (Function.update vars x (some a)) t' (s.declare x b) := by
  cases hstep
  constructor
  · rw [Scopes.shape_declare, h.shape]
  · intro y c hcurrent hc
    rw [Scopes.find_declare]
    split
    · rename_i heq
      rw [← heq, Function.update_self] at hc
      cases hc
      exact ⟨b, rfl, hab⟩
    · rename_i hne
      rw [Function.update_of_ne fun heq ↦ hne heq.symm] at hc
      obtain ⟨hname, hfresh⟩ := hcurrent
      apply h.value y c _ hc
      constructor
      · exact (List.mem_cons.mp hname).resolve_left fun heq ↦ hne heq.symm
      · intro hstale
        have hother : y ≠ x := fun heq ↦ hne heq.symm
        exact hfresh (List.mem_filter.mpr ⟨hstale, decide_eq_true hother⟩)

theorem change (h : Agrees rel vars t s) {x : V} {a : α} {b : β}
    (hstep : t.step (.change x) = some t') (hab : rel a b) :
    Agrees rel (Function.update vars x (some a)) t' (s.assign x b) := by
  unfold Track.step at hstep
  dsimp only at hstep
  split at hstep
  · rename_i hx
    cases hstep
    constructor
    · rw [Scopes.shape_assign, h.shape]
    · intro y c hcurrent hc
      by_cases heq : x = y
      · rw [← heq, Function.update_self] at hc
        cases hc
        have hname : x ∈ s.names := by
          rw [← Scopes.names_shape, h.shape]
          exact hx.1
        exact ⟨b, heq ▸ Scopes.find_assign_self b hname, hab⟩
      · rw [Function.update_of_ne fun h ↦ heq h.symm] at hc
        rw [Scopes.find_assign_ne b s heq]
        exact h.value y c hcurrent hc
  · cases hstep

theorem enter (h : Agrees rel vars t s) (hstep : t.step .enter = some t') :
    Agrees rel vars t' s.enter := by
  cases hstep
  constructor
  · rw [Scopes.shape_enter, h.shape]
  · exact h.value

/-- The names that the block bound are no longer current. -/
theorem leave (h : Agrees rel vars t s) (hstep : t.step .leave = some t') :
    Agrees rel vars t' s.leave := by
  cases hstep
  constructor
  · rw [Scopes.shape_leave, h.shape]
  · intro y c hcurrent hc
    obtain ⟨hname, hfresh⟩ := hcurrent
    have hopened : y ∉ s.opened := by
      rw [← Scopes.opened_shape, h.shape]
      exact fun hy ↦ hfresh (List.mem_append_left _ hy)
    have hcurrent : t.Current y :=
      ⟨Scopes.names_leave_subset _ hname, fun hy ↦ hfresh (List.mem_append_right _ hy)⟩
    rw [Scopes.find_leave hopened]
    exact h.value y c hcurrent hc

end Agrees

end Reasoning
