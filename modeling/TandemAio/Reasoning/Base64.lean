import Mathlib.Data.List.Basic
import Mathlib.Data.UInt
import Mathlib.Tactic.Common

/-!
# Base64

The standard alphabet with padding, and a decoder that skips what is not in the alphabet.
-/

namespace Reasoning.Base64

def alphabet : String := "ABCDEFGHIJKLMNOPQRSTUVWXYZabcdefghijklmnopqrstuvwxyz0123456789+/"

def digit (n : Nat) : Char := alphabet.toList.getD n '='

/-- The six bits that a character stands for. -/
def value (c : Char) : Option Nat :=
  let n := c.toNat
  if 65 ≤ n ∧ n ≤ 90 then some (n - 65)
  else if 97 ≤ n ∧ n ≤ 122 then some (n - 71)
  else if 48 ≤ n ∧ n ≤ 57 then some (n + 4)
  else if c = '+' then some 62
  else if c = '/' then some 63
  else none

def encode : List UInt8 → List Char
  | [] => []
  | [a] => [digit (a.toNat / 4), digit (a.toNat % 4 * 16), '=', '=']
  | [a, b] =>
    [digit (a.toNat / 4), digit (a.toNat % 4 * 16 + b.toNat / 16), digit (b.toNat % 16 * 4), '=']
  | a :: b :: c :: rest =>
    digit (a.toNat / 4) :: digit (a.toNat % 4 * 16 + b.toNat / 16) ::
      digit (b.toNat % 16 * 4 + c.toNat / 64) :: digit (c.toNat % 64) :: encode rest

/-- Where the decoder stands in a group of four characters: the bits that are left over, and the
padding since the last digit. -/
inductive Quad where
  | none
  | one (left : Nat)
  | two (left : Nat) (pads : Nat)
  | three (left : Nat)

/-- Decodes from a place in a group.  Padding that completes a group ends the text. -/
def decodeFrom : Quad → List Char → Option (List UInt8)
  | .none, [] => some []
  | _, [] => Option.none
  | quad, c :: rest =>
    if c = '=' then
      match quad with
      | .two left pads => if pads = 0 then decodeFrom (.two left 1) rest else some []
      | .three _ => some []
      | .none => decodeFrom .none rest
      | .one left => decodeFrom (.one left) rest
    else
      match value c with
      | Option.none => decodeFrom quad rest
      | some v =>
        match quad with
        | .none => decodeFrom (.one v) rest
        | .one left =>
          (decodeFrom (.two (v % 16) 0) rest).map (UInt8.ofNat (left * 4 + v / 16) :: ·)
        | .two left _ =>
          (decodeFrom (.three (v % 4)) rest).map (UInt8.ofNat (left * 16 + v / 4) :: ·)
        | .three left => (decodeFrom .none rest).map (UInt8.ofNat (left * 64 + v) :: ·)

def decode (text : List Char) : Option (List UInt8) := decodeFrom .none text

/-! ## Decoding what was encoded -/

attribute [local simp] encode decodeFrom

theorem digit_spec : ∀ n < 64, value (digit n) = some n ∧ digit n ≠ '=' := by
  decide +kernel

variable {n : Nat} {rest : List Char}

theorem decodeFrom_first (h : n < 64) :
    decodeFrom .none (digit n :: rest) = decodeFrom (.one n) rest := by
  rw [decodeFrom, if_neg (digit_spec n h).2, (digit_spec n h).1]

theorem decodeFrom_second {left : Nat} (h : n < 64) :
    decodeFrom (.one left) (digit n :: rest) =
      (decodeFrom (.two (n % 16) 0) rest).map (UInt8.ofNat (left * 4 + n / 16) :: ·) := by
  rw [decodeFrom, if_neg (digit_spec n h).2, (digit_spec n h).1]

theorem decodeFrom_third {left pads : Nat} (h : n < 64) :
    decodeFrom (.two left pads) (digit n :: rest) =
      (decodeFrom (.three (n % 4)) rest).map (UInt8.ofNat (left * 16 + n / 4) :: ·) := by
  rw [decodeFrom, if_neg (digit_spec n h).2, (digit_spec n h).1]

theorem decodeFrom_fourth {left : Nat} (h : n < 64) :
    decodeFrom (.three left) (digit n :: rest) =
      (decodeFrom .none rest).map (UInt8.ofNat (left * 64 + n) :: ·) := by
  rw [decodeFrom, if_neg (digit_spec n h).2, (digit_spec n h).1]

/-- A byte is put together from the bits of two digits. -/
theorem ofNat_eq {b : UInt8} (h : n = b.toNat) : UInt8.ofNat n = b := by
  rw [h, UInt8.ofNat_toNat]

theorem decode_encode (bytes : List UInt8) : decode (encode bytes) = some bytes := by
  unfold decode
  induction bytes using encode.induct with
  | case1 => rfl
  | case2 a =>
    have ha := a.toNat_lt
    rw [encode, decodeFrom_first (by omega), decodeFrom_second (by omega),
      ofNat_eq (b := a) (by omega)]
    rfl
  | case3 a b =>
    have ha := a.toNat_lt
    have hb := b.toNat_lt
    rw [encode, decodeFrom_first (by omega), decodeFrom_second (by omega),
      ofNat_eq (b := a) (by omega), decodeFrom_third (by omega), ofNat_eq (b := b) (by omega)]
    rfl
  | case4 a b c rest ih =>
    have ha := a.toNat_lt
    have hb := b.toNat_lt
    have hc := c.toNat_lt
    rw [encode, decodeFrom_first (by omega), decodeFrom_second (by omega),
      ofNat_eq (b := a) (by omega), decodeFrom_third (by omega), ofNat_eq (b := b) (by omega),
      decodeFrom_fourth (by omega), ofNat_eq (b := c) (by omega), ih]
    rfl

end Reasoning.Base64
