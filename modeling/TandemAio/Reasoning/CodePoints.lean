import Mathlib.Data.Fin.Basic
import TandemAio.Reasoning.Percent

/-!
# Strings of code points

A Python string is a list of code points.  Unlike a `Char`, one of them may be a surrogate, and
`surrogatepass` decodes the surrogates that stand alone in bytes.
-/

namespace Reasoning

abbrev CodePoint := Fin 0x110000

abbrev PyStr := List CodePoint

instance codePoints_neZero : NeZero 0x110000 := ⟨by decide⟩

instance codePoint_lawfulBEq : LawfulBEq CodePoint := inferInstance

instance pyStr_lawfulBEq : LawfulBEq PyStr := inferInstance

/-- The code point of a character. -/
def charPoint (c : Char) : CodePoint := Fin.ofNat 0x110000 c.toNat

def points (s : String) : PyStr := s.toList.map charPoint

/-- `c.isspace()`, by the number of the character. -/
def spaceCode (n : Nat) : Bool :=
  n ∈ [0x20, 0x85, 0xa0, 0x1680, 0x2028, 0x2029, 0x202f, 0x205f, 0x3000] ||
    (0x09 ≤ n && n ≤ 0x0d) || (0x1c ≤ n && n ≤ 0x1f) || (0x2000 ≤ n && n ≤ 0x200a)

def CodePoint.IsHighSurrogate (c : CodePoint) : Prop := 0xD800 ≤ c.val ∧ c.val < 0xDC00

def CodePoint.IsLowSurrogate (c : CodePoint) : Prop := 0xDC00 ≤ c.val ∧ c.val < 0xE000

instance (c : CodePoint) : Decidable c.IsHighSurrogate := inferInstanceAs (Decidable (_ ∧ _))

instance (c : CodePoint) : Decidable c.IsLowSurrogate := inferInstanceAs (Decidable (_ ∧ _))

def CodePoint.IsSurrogate (c : CodePoint) : Prop := 0xD800 ≤ c.val ∧ c.val < 0xE000

instance (c : CodePoint) : Decidable c.IsSurrogate := inferInstanceAs (Decidable (_ ∧ _))

/-- The character of a code point that is no surrogate. -/
def CodePoint.char? (c : CodePoint) : Option Char :=
  if c.IsSurrogate then none else some (Char.ofNat c.val)

/-- The characters of a string, without its surrogates. -/
def chars (s : PyStr) : List Char := s.filterMap CodePoint.char?

/-- The value of a hexadecimal digit. -/
def hexValue (c : CodePoint) : Option Nat :=
  if charPoint '0' ≤ c ∧ c ≤ charPoint '9' then some (c.val - '0'.toNat)
  else if charPoint 'a' ≤ c ∧ c ≤ charPoint 'f' then some (c.val - 'a'.toNat + 10)
  else if charPoint 'A' ≤ c ∧ c ≤ charPoint 'F' then some (c.val - 'A'.toNat + 10)
  else none

theorem charPoint_val (c : Char) : (charPoint c).val = c.toNat := by
  have hlt : c.toNat < 0x110000 := by
    rcases c.valid with h | ⟨-, h⟩
    · have h' : c.toNat < 0xd800 := h
      omega
    · exact h
  exact Nat.mod_eq_of_lt hlt

theorem charPoint_inj {c d : Char} : charPoint c = charPoint d ↔ c = d := by
  constructor
  · intro h
    have hval := congrArg Fin.val h
    rw [charPoint_val, charPoint_val] at hval
    exact Char.toNat_inj.mp hval
  · rintro rfl
    rfl

theorem charPoint_not_surrogate (c : Char) : ¬(charPoint c).IsSurrogate := by
  unfold CodePoint.IsSurrogate
  rw [charPoint_val]
  rcases c.valid with h | ⟨h, -⟩
  · have h' : c.toNat < 0xd800 := h
    omega
  · have h' : 0xdfff < c.toNat := h
    omega

theorem points_not_surrogate (s : String) : ∀ c ∈ points s, ¬c.IsSurrogate := by
  intro c hc
  obtain ⟨d, -, rfl⟩ := List.mem_map.mp hc
  exact charPoint_not_surrogate d

theorem charPoint_char? (c : Char) : (charPoint c).char? = some c := by
  unfold CodePoint.char?
  rw [if_neg (charPoint_not_surrogate c), charPoint_val, Char.ofNat_toNat]

theorem chars_map_charPoint (cs : List Char) : chars (cs.map charPoint) = cs := by
  unfold chars
  rw [List.filterMap_map]
  induction cs with
  | nil => rfl
  | cons c cs ih =>
    rw [List.filterMap_cons, Function.comp_apply, charPoint_char?, ih]

theorem chars_points (s : String) : chars (points s) = s.toList := chars_map_charPoint _

theorem points_inj {s t : String} : points s = points t ↔ s = t := by
  constructor
  · intro h
    have hchars := congrArg chars h
    rw [chars_points, chars_points] at hchars
    exact String.toList_inj.mp hchars
  · rintro rfl
    rfl

/-! ## Decoding

`bytes.decode(encoding, "surrogatepass")`; `none` is a `UnicodeDecodeError`. -/

/-- The code point of a surrogate pair. -/
def joinSurrogates (high low : CodePoint) : CodePoint :=
  Fin.ofNat 0x110000 (0x10000 + (high.val - 0xD800) * 0x400 + (low.val - 0xDC00))

/-- The code units of UTF-16, with their pairs joined. -/
def joinUnits : PyStr → PyStr
  | high :: low :: rest =>
    if high.IsHighSurrogate ∧ low.IsLowSurrogate then joinSurrogates high low :: joinUnits rest
    else high :: joinUnits (low :: rest)
  | [unit] => [unit]
  | [] => []

inductive ByteOrder
  | big
  | little

/-- The number that some bytes write. -/
def ByteOrder.number (order : ByteOrder) (bytes : List UInt8) : Nat :=
  match order with
  | .big => bytes.foldl (fun n b ↦ n * 256 + b.toNat) 0
  | .little => bytes.foldr (fun b n ↦ n * 256 + b.toNat) 0

def utf16Units (order : ByteOrder) : List UInt8 → Option PyStr
  | [] => some []
  | [_] => none
  | a :: b :: rest => (utf16Units order rest).map (Fin.ofNat 0x110000 (order.number [a, b]) :: ·)

def utf16Points (order : ByteOrder) (bytes : List UInt8) : Option PyStr :=
  (utf16Units order bytes).map joinUnits

def utf32Points (order : ByteOrder) : List UInt8 → Option PyStr
  | [] => some []
  | a :: b :: c :: d :: rest =>
    if h : order.number [a, b, c, d] < 0x110000 then
      (utf32Points order rest).map (⟨order.number [a, b, c, d], h⟩ :: ·)
    else none
  | _ => none

/-- The bounds of the second byte, where `surrogatepass` lets surrogates through. -/
def passBounds (b : UInt8) : Option (Nat × UInt8 × UInt8) :=
  if b = 0xED then some (2, 0x80, 0xBF) else leadBounds b

/-- The code points of UTF-8 after `skip` bytes that are read already. -/
def utf8PointsFrom : Nat → List UInt8 → Option PyStr
  | _, [] => some []
  | skip + 1, _ :: rest => utf8PointsFrom skip rest
  | 0, b :: rest =>
    if b < 0x80 then (utf8PointsFrom 0 rest).map (Fin.ofNat 0x110000 b.toNat :: ·)
    else
      match passBounds b with
      | none => none
      | some (n, lo, hi) =>
        let tail := continuation n lo hi rest
        if tail.length = n then
          (utf8PointsFrom n rest).map (Fin.ofNat 0x110000 (codePoint b tail) :: ·)
        else none

def utf8Points (bytes : List UInt8) : Option PyStr := utf8PointsFrom 0 bytes

end Reasoning
