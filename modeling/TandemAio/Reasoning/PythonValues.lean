import Mathlib.Data.List.DropRight
import TandemAio.Reasoning.JsonText

/-!
# `str`, `int` and the truth of decoded values

What Python's built-in functions make of the values of a JSON document.
-/

namespace Reasoning

/-- What Python takes from the Unicode database, and how it writes doubles. -/
class PythonText where
  /-- The value of a decimal digit. -/
  decimal : CodePoint → Option Nat
  isprintable : CodePoint → Bool
  floatRepr : PyFloat → String

/-- `c.isspace()` -/
def spacePoint (c : CodePoint) : Bool := spaceCode c.val

/-- `s.strip()` -/
def PyStr.strip (s : PyStr) : PyStr := (s.dropWhile spacePoint).rdropWhile spacePoint

theorem PyStr.strip_sublist (s : PyStr) : (PyStr.strip s).Sublist s :=
  (List.rdropWhile_prefix spacePoint _).sublist.trans (List.dropWhile_suffix spacePoint).sublist

/-- What is no white space is not stripped. -/
theorem PyStr.count_strip {c : CodePoint} (h : spacePoint c = false) (s : PyStr) :
    (PyStr.strip s).count c = s.count c := by
  have hdrop : ∀ s : PyStr, (s.dropWhile spacePoint).count c = s.count c := by
    intro s
    have hzero : (s.takeWhile spacePoint).count c = 0 := by
      rw [List.count_eq_zero]
      intro hmem
      have hspace := List.mem_takeWhile_imp hmem
      rw [h] at hspace
      cases hspace
    calc
      _ = (s.takeWhile spacePoint).count c + (s.dropWhile spacePoint).count c := by
        rw [hzero, Nat.zero_add]
      _ = s.count c := by rw [← List.count_append, List.takeWhile_append_dropWhile]
  unfold PyStr.strip List.rdropWhile
  rw [List.count_reverse, hdrop, List.count_reverse, hdrop]

/-- The newlines of a text, where every end of a line becomes one. -/
def newlinesFrom : Bool → PyStr → PyStr
  | _, [] => []
  | afterReturn, c :: rest =>
    if afterReturn ∧ c = charPoint '\n' then newlinesFrom false rest
    else if c = charPoint '\r' then charPoint '\n' :: newlinesFrom true rest
    else c :: newlinesFrom false rest

/-- What Python reads of a file that is opened as text. -/
def universalNewlines (s : PyStr) : PyStr := newlinesFrom false s

section UniversalNewlines

attribute [local simp] newlinesFrom

variable {c : CodePoint} {afterReturn : Bool}

theorem length_newlinesFrom (afterReturn : Bool) (s : PyStr) :
    (newlinesFrom afterReturn s).length ≤ s.length := by
  induction s generalizing afterReturn with
  | nil => exact le_rfl
  | cons d s ih =>
    have hfalse := ih false
    have htrue := ih true
    rw [newlinesFrom]
    split_ifs
    · rw [List.length_cons]
      omega
    · rw [List.length_cons, List.length_cons]
      omega
    · rw [List.length_cons, List.length_cons]
      omega

theorem count_newlinesFrom (hline : c ≠ charPoint '\n') (hreturn : c ≠ charPoint '\r')
    (afterReturn : Bool) (s : PyStr) : (newlinesFrom afterReturn s).count c = s.count c := by
  induction s generalizing afterReturn with
  | nil => rfl
  | cons d s ih =>
    rw [newlinesFrom]
    split_ifs with hjoin hd
    · rw [ih, hjoin.2, List.count_cons_of_ne hline.symm]
    · rw [List.count_cons_of_ne hline.symm, ih, hd, List.count_cons_of_ne hreturn.symm]
    · rw [List.count_cons, List.count_cons, ih]

theorem return_notMem_newlinesFrom (afterReturn : Bool) (s : PyStr) :
    charPoint '\r' ∉ newlinesFrom afterReturn s := by
  induction s generalizing afterReturn with
  | nil => exact List.not_mem_nil
  | cons d s ih =>
    rw [newlinesFrom]
    split_ifs with hjoin hd
    · exact ih false
    · intro hmem
      rcases List.mem_cons.mp hmem with heq | hmem
      · exact absurd heq (by decide)
      · exact ih true hmem
    · intro hmem
      rcases List.mem_cons.mp hmem with heq | hmem
      · exact hd heq.symm
      · exact ih false hmem

/-- A character that ends no line parts a text in two. -/
theorem newlinesFrom_append (hline : c ≠ charPoint '\n') (hreturn : c ≠ charPoint '\r')
    (s t : PyStr) : newlinesFrom afterReturn (s ++ c :: t) =
      newlinesFrom afterReturn s ++ c :: newlinesFrom false t := by
  induction s generalizing afterReturn with
  | nil =>
    have hjoin : ¬(afterReturn = true ∧ c = charPoint '\n') := fun h ↦ hline h.2
    rw [List.nil_append, newlinesFrom.eq_2, if_neg hjoin, if_neg hreturn]
    rfl
  | cons d s ih =>
    rw [List.cons_append, newlinesFrom, newlinesFrom]
    split_ifs
    · exact ih
    · rw [ih, List.cons_append]
    · rw [ih, List.cons_append]

theorem newlinesFrom_eq_self {s : PyStr} (h : charPoint '\r' ∉ s) (t : PyStr) :
    newlinesFrom false (s ++ t) = s ++ newlinesFrom false t := by
  induction s with
  | nil => rfl
  | cons d s ih =>
    have hd : d ≠ charPoint '\r' := fun heq ↦ h (heq ▸ List.mem_cons_self)
    have hs : charPoint '\r' ∉ s := fun hmem ↦ h (List.mem_cons_of_mem d hmem)
    have hjoin : ¬(false = true ∧ d = charPoint '\n') := fun h ↦ Bool.false_ne_true h.1
    rw [List.cons_append, newlinesFrom.eq_2, if_neg hjoin, if_neg hd, ih hs, List.cons_append]

end UniversalNewlines

namespace JsonValue

/-- `bool(value)` -/
def truthy : JsonValue → Bool
  | .null => false
  | .bool value => value
  | .int value => value ≠ 0
  | .float (.finite _ significand _) => significand ≠ 0
  | .float _ => true
  | .str value => value ≠ []
  | .list items => !items.isEmpty
  | .dict pairs => !pairs.isEmpty

end JsonValue

/-! ## `int` -/

/-- The white space around the digits that `int` skips.  The separators of ASCII are white space
elsewhere, and no part of a number. -/
def intSpace (c : CodePoint) : Bool := spacePoint c && !(0x1c ≤ c.val && c.val ≤ 0x1f)

/-- The number that some digits write, with single underscores between them. -/
def intDigitsValue (decimal : CodePoint → Option Nat) (s : PyStr) : Option Nat := do
  let groups := s.splitOnP (· == charPoint '_')
  let digits ← groups.flatten.mapM decimal
  if [] ∈ groups ∨ intMaxStrDigits < digits.length then none
  else some (digits.foldl (fun n digit ↦ 10 * n + digit) 0)

/-- `int(s)`, of a string, with the values of its decimal digits. -/
def intOfStr (decimal : CodePoint → Option Nat) (s : PyStr) : Option Int :=
  match (s.dropWhile intSpace).rdropWhile intSpace with
  | [] => none
  | sign :: digits =>
    if sign = charPoint '-' then (intDigitsValue decimal digits).map fun n ↦ -(n : Int)
    else if sign = charPoint '+' then (intDigitsValue decimal digits).map Int.ofNat
    else (intDigitsValue decimal (sign :: digits)).map Int.ofNat

example : intOfStr (fun c ↦ some (c.val - 48)) (points " 42\n") = some 42 := by decide

example : intOfStr (fun c ↦ if c.val < 48 then none else some (c.val - 48)) (points "3\x1f") =
    none := by
  decide

theorem mapM_eq_some {α β : Type} {f : α → Option β} {g : α → β} {l : List α}
    (h : ∀ a ∈ l, f a = some (g a)) : l.mapM f = some (l.map g) := by
  induction l with
  | nil => rfl
  | cons a l ih =>
    rw [List.mapM_cons, h a List.mem_cons_self, ih fun b hb ↦ h b (List.mem_cons_of_mem a hb)]
    rfl

section ToString

variable {decimal : CodePoint → Option Nat} {m : Nat}

theorem intSpace_of_isDigit {c : Char} (h : c.isDigit = true) : intSpace (charPoint c) = false := by
  have hrange : 48 ≤ c.toNat ∧ c.toNat ≤ 57 := by
    unfold Char.isDigit at h
    simp only [Bool.and_eq_true, decide_eq_true_eq] at h
    exact h
  have hspace : spacePoint (charPoint c) = false := by
    unfold spacePoint spaceCode
    rw [charPoint_val]
    simp only [List.mem_cons, List.not_mem_nil, or_false, Bool.or_eq_false_iff,
      decide_eq_false_iff_not, Bool.and_eq_false_iff]
    omega
  rw [intSpace, hspace, Bool.false_and]

theorem intDigitsValue_toDigits
    (hdecimal : ∀ c : Char, c.isDigit = true → decimal (charPoint c) = some (c.toNat - '0'.toNat))
    (hlength : (Nat.toDigits 10 m).length ≤ intMaxStrDigits) :
    intDigitsValue decimal ((Nat.toDigits 10 m).map charPoint) = some m := by
  have hdigit : ∀ c ∈ Nat.toDigits 10 m, c.isDigit = true := fun c hc ↦
    Nat.isDigit_of_mem_toDigits (by decide) (by decide) hc
  have hunderscore : charPoint '_' ∉ (Nat.toDigits 10 m).map charPoint := by
    intro hmem
    obtain ⟨c, hc, hpoint⟩ := List.mem_map.mp hmem
    rw [charPoint_inj.mp hpoint] at hc
    exact Nat.underscore_not_in_toDigits hc
  have hgroups : ((Nat.toDigits 10 m).map charPoint).splitOnP (· == charPoint '_') =
      [(Nat.toDigits 10 m).map charPoint] := List.splitOn_eq_singleton hunderscore
  have hvalues : ((Nat.toDigits 10 m).map charPoint).mapM decimal =
      some ((Nat.toDigits 10 m).map fun c ↦ c.toNat - '0'.toNat) := by
    rw [List.mapM_map]
    exact mapM_eq_some fun c hc ↦ hdecimal c (hdigit c hc)
  have hvalue : ((Nat.toDigits 10 m).map fun c ↦ c.toNat - '0'.toNat).foldl
      (fun n digit ↦ 10 * n + digit) 0 = m := by
    rw [List.foldl_map, ← Nat.ofDigitChars_eq_foldl, Nat.ofDigitChars_ten_toDigits]
  have hwritten : ¬ ([] ∈ [(Nat.toDigits 10 m).map charPoint] ∨
      intMaxStrDigits < ((Nat.toDigits 10 m).map fun c ↦ c.toNat - '0'.toNat).length) := by
    rw [List.length_map, List.mem_singleton]
    rintro (hnil | hlong)
    · exact Nat.toDigits_ne_nil (List.map_eq_nil_iff.mp hnil.symm)
    · omega
  unfold intDigitsValue
  rw [hgroups]
  dsimp only [List.flatten_cons, List.flatten_nil]
  rw [List.append_nil, hvalues]
  dsimp only [Option.bind_eq_bind, Option.bind_some]
  rw [if_neg hwritten, hvalue]

/-- `int(str(m)) == m`, within the limit on digits. -/
theorem intOfStr_toString
    (hdecimal : ∀ c : Char, c.isDigit = true → decimal (charPoint c) = some (c.toNat - '0'.toNat))
    (hlength : (Nat.toDigits 10 m).length ≤ intMaxStrDigits) :
    intOfStr decimal (points (toString m)) = some (m : Int) := by
  have hpoints : points (toString m) = (Nat.toDigits 10 m).map charPoint :=
    congrArg (List.map charPoint) Nat.toList_repr
  have hdigit : ∀ c ∈ Nat.toDigits 10 m, c.isDigit = true := fun c hc ↦
    Nat.isDigit_of_mem_toDigits (by decide) (by decide) hc
  have hspace : ∀ p ∈ (Nat.toDigits 10 m).map charPoint, intSpace p = false := by
    intro p hp
    obtain ⟨c, hc, rfl⟩ := List.mem_map.mp hp
    exact intSpace_of_isDigit (hdigit c hc)
  have hstrip : (((Nat.toDigits 10 m).map charPoint).dropWhile intSpace).rdropWhile intSpace =
      (Nat.toDigits 10 m).map charPoint := by
    have hdrop : ((Nat.toDigits 10 m).map charPoint).dropWhile intSpace =
        (Nat.toDigits 10 m).map charPoint := by
      rw [List.dropWhile_eq_self_iff]
      intro hpos
      rw [hspace _ (List.getElem_mem hpos)]
      exact Bool.false_ne_true
    rw [hdrop, List.rdropWhile_eq_self_iff]
    intro hne
    rw [hspace _ (List.getLast_mem hne)]
    exact Bool.false_ne_true
  unfold intOfStr
  rw [hpoints, hstrip]
  cases hdigits : Nat.toDigits 10 m with
  | nil => exact absurd hdigits Nat.toDigits_ne_nil
  | cons c rest =>
    have hfirst : c.isDigit = true := hdigit c (hdigits ▸ List.mem_cons_self)
    have hminus : charPoint c ≠ charPoint '-' := by
      rw [Ne, charPoint_inj]
      rintro rfl
      exact absurd hfirst (by decide)
    have hplus : charPoint c ≠ charPoint '+' := by
      rw [Ne, charPoint_inj]
      rintro rfl
      exact absurd hfirst (by decide)
    rw [List.map_cons]
    dsimp only
    rw [if_neg hminus, if_neg hplus, ← List.map_cons, ← hdigits,
      intDigitsValue_toDigits hdecimal hlength]
    rfl

end ToString

section Builtins

variable [PythonText]

inductive IntError
  /-- A `TypeError` or a `ValueError`. -/
  | invalid
  | overflowError
deriving DecidableEq

/-- `int(value)`; a double is truncated. -/
def JsonValue.toInt : JsonValue → Except IntError Int
  | .bool value => .ok value.toNat
  | .int value => .ok value
  | .float (.finite negative significand exponent) =>
    let magnitude : Int :=
      if 0 ≤ exponent then significand * 2 ^ exponent.toNat
      else significand / 2 ^ (-exponent).toNat
    .ok (if negative then -magnitude else magnitude)
  | .float (.infinity _) => .error .overflowError
  | .str value =>
    match intOfStr PythonText.decimal value with
    | some n => .ok n
    | none => .error .invalid
  | .null | .float .nan | .list _ | .dict _ => .error .invalid

/-! ## `str` -/

/-- `n` in lower-case hexadecimal, of `width` digits at least. -/
def paddedHex (width n : Nat) : PyStr :=
  let digits := Nat.toDigits 16 n
  (List.replicate (width - digits.length) '0' ++ digits).map charPoint

def charRepr (quote c : CodePoint) : PyStr :=
  if c = quote ∨ c = charPoint '\\' then [charPoint '\\', c]
  else if c = charPoint '\t' then points "\\t"
  else if c = charPoint '\n' then points "\\n"
  else if c = charPoint '\r' then points "\\r"
  else if 0x20 ≤ c.val ∧ (c.val < 0x7f ∨ (0x7f < c.val ∧ PythonText.isprintable c)) then [c]
  else if c.val ≤ 0xff then points "\\x" ++ paddedHex 2 c.val
  else if c.val ≤ 0xffff then points "\\u" ++ paddedHex 4 c.val
  else points "\\U" ++ paddedHex 8 c.val

/-- `repr(s)`, of a string. -/
def strRepr (s : PyStr) : PyStr :=
  let quote := charPoint (if charPoint '\'' ∈ s ∧ charPoint '"' ∉ s then '"' else '\'')
  quote :: s.flatMap (charRepr quote) ++ [quote]

mutual

/-- `repr(value)` -/
def JsonValue.repr : JsonValue → PyStr
  | .null => points "None"
  | .bool true => points "True"
  | .bool false => points "False"
  | .int value => points (toString value)
  | .float value => points (PythonText.floatRepr value)
  | .str value => strRepr value
  | .list items => points "[" ++ reprItems items ++ points "]"
  | .dict pairs => points "\x7b" ++ reprPairs pairs ++ points "\x7d"

def reprItems : List JsonValue → PyStr
  | [] => []
  | [item] => item.repr
  | item :: rest => item.repr ++ points ", " ++ reprItems rest

def reprPairs : List (PyStr × JsonValue) → PyStr
  | [] => []
  | [(key, value)] => strRepr key ++ points ": " ++ value.repr
  | (key, value) :: rest =>
    strRepr key ++ points ": " ++ value.repr ++ points ", " ++ reprPairs rest

end

/-- `str(value)` -/
def JsonValue.toStr : JsonValue → PyStr
  | .str value => value
  | value => value.repr

end Builtins

end Reasoning
