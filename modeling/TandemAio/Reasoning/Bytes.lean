import Mathlib.Data.List.Basic
import Mathlib.Algebra.Order.Ring.Nat
import Mathlib.Data.UInt

/-!
# Byte strings

Slices of a byte string, natural numbers as little-endian bytes of a fixed width, and text that is
cut at a separator.
-/

namespace Reasoning

/-- `bytes[lo..hi]` -/
def slice (bytes : List UInt8) (lo hi : Nat) : List UInt8 := (bytes.take hi).drop lo

theorem slice_append_left (a b : List UInt8) {lo hi : Nat} (h : hi ≤ a.length) :
    slice (a ++ b) lo hi = slice a lo hi := by
  unfold slice
  rw [List.take_append_of_le_length h]

/-- The part of a string that stands between a prefix and the rest. -/
theorem slice_middle (a b c : List UInt8) :
    slice (a ++ (b ++ c)) a.length (a.length + b.length) = b := by
  unfold slice
  rw [← List.append_assoc, ← List.length_append, List.take_left, List.drop_left]

/-! ## Little-endian numbers -/

/-- The `width` low bytes of `n`, the lowest first. -/
def leBytes : Nat → Nat → List UInt8
  | 0, _ => []
  | width + 1, n => UInt8.ofNat n :: leBytes width (n / 256)

def ofLeBytes : List UInt8 → Nat
  | [] => 0
  | b :: rest => b.toNat + 256 * ofLeBytes rest

@[simp] theorem length_leBytes (width n : Nat) : (leBytes width n).length = width := by
  induction width generalizing n with
  | zero => rfl
  | succ width ih =>
    unfold leBytes
    rw [List.length_cons, ih]

/-- A number that fits the width is read back. -/
theorem ofLeBytes_leBytes {width n : Nat} (h : n < 256 ^ width) :
    ofLeBytes (leBytes width n) = n := by
  induction width generalizing n with
  | zero =>
    have hzero : n = 0 := by simpa using h
    rw [hzero]
    rfl
  | succ width ih =>
    have hrest : n / 256 < 256 ^ width := by
      apply Nat.div_lt_of_lt_mul
      rw [Nat.pow_succ, Nat.mul_comm] at h
      exact h
    unfold leBytes ofLeBytes
    rw [ih hrest, UInt8.toNat_ofNat']
    omega

/-! ## Separators -/

/-- A string is cut in one way at the first separator. -/
theorem append_separator_inj {α : Type} {sep : α} {a b rest rest' : List α} (ha : sep ∉ a)
    (hb : sep ∉ b) (h : a ++ sep :: rest = b ++ sep :: rest') : a = b ∧ rest = rest' := by
  induction a generalizing b with
  | nil =>
    cases b with
    | nil =>
      cases h
      exact ⟨rfl, rfl⟩
    | cons y b =>
      have hy : sep = y := (List.cons.inj h).1
      exact absurd (hy ▸ List.mem_cons_self) hb
  | cons x a ih =>
    cases b with
    | nil =>
      have hx : x = sep := (List.cons.inj h).1
      exact absurd (hx ▸ List.mem_cons_self) ha
    | cons y b =>
      obtain ⟨rfl, htail⟩ := List.cons.inj h
      obtain ⟨rfl, hrest⟩ := ih (fun hm ↦ ha (List.mem_cons_of_mem x hm))
        (fun hm ↦ hb (List.mem_cons_of_mem x hm)) htail
      exact ⟨rfl, hrest⟩

end Reasoning
