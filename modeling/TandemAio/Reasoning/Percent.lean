import Mathlib.Data.List.Basic
import Mathlib.Data.UInt
import Mathlib.Tactic.Common

/-!
# Text and percent-encoding as bytes

UTF-8 and Latin-1 text, UTF-8 decoding with replacement characters, and percent-decoding.
-/

namespace Reasoning

/-- A property of every byte is checked byte by byte. -/
theorem forall_byte {P : UInt8 → Prop} (h : ∀ n < 256, P (UInt8.ofNat n)) (b : UInt8) : P b := by
  have hb := h b.toNat b.toNat_lt_size
  rwa [UInt8.ofNat_toNat] at hb

/-! ## Text -/

/-- The UTF-8 bytes of a list of characters. -/
def utf8Chars (cs : List Char) : List UInt8 := cs.flatMap String.utf8EncodeChar

/-- The UTF-8 bytes of a string. -/
def utf8 (s : String) : List UInt8 := utf8Chars s.toList

/-- The character that a byte stands for in Latin-1. -/
def latin1Char (b : UInt8) : Char := Char.ofNat b.toNat

/-- Bytes read as Latin-1. -/
def latin1 (bytes : List UInt8) : String := String.ofList (bytes.map latin1Char)

def Ascii (bytes : List UInt8) : Prop := ∀ b ∈ bytes, b < 128

theorem utf8_append (s t : String) : utf8 (s ++ t) = utf8 s ++ utf8 t := by
  unfold utf8 utf8Chars
  rw [String.toList_append, List.flatMap_append]

theorem utf8_ofList (cs : List Char) : utf8 (String.ofList cs) = utf8Chars cs := by
  unfold utf8
  rw [String.toList_ofList]

theorem utf8Chars_cons (c : Char) (cs : List Char) :
    utf8Chars (c :: cs) = String.utf8EncodeChar c ++ utf8Chars cs := rfl

theorem utf8EncodeChar_latin1Char (b : UInt8) (h : b < 128) :
    String.utf8EncodeChar (latin1Char b) = [b] := by
  revert h
  apply forall_byte (P := fun b ↦ b < 128 → String.utf8EncodeChar (latin1Char b) = [b])
  decide +kernel

/-- A byte that is no ASCII takes two, and neither of them is ASCII. -/
theorem utf8EncodeChar_latin1Char_high (b : UInt8) (h : 128 ≤ b) :
    ∃ x y, String.utf8EncodeChar (latin1Char b) = [x, y] ∧ 128 ≤ x ∧ 128 ≤ y := by
  have hlist : (String.utf8EncodeChar (latin1Char b)).length = 2 ∧
      (String.utf8EncodeChar (latin1Char b)).all (128 ≤ ·) := by
    revert h
    apply forall_byte (P := fun b ↦ 128 ≤ b →
      (String.utf8EncodeChar (latin1Char b)).length = 2 ∧
        (String.utf8EncodeChar (latin1Char b)).all (128 ≤ ·))
    decide +kernel
  obtain ⟨hlen, hall⟩ := hlist
  obtain ⟨x, y, hxy⟩ := List.length_eq_two.mp hlen
  have hhigh : ∀ z ∈ String.utf8EncodeChar (latin1Char b), 128 ≤ z := fun z hz ↦
    of_decide_eq_true (List.all_eq_true.mp hall z hz)
  rw [hxy] at hhigh
  exact ⟨x, y, hxy, hhigh x (by simp), hhigh y (by simp)⟩

theorem utf8Chars_latin1_of_ascii {bytes : List UInt8} (h : Ascii bytes) :
    utf8Chars (bytes.map latin1Char) = bytes := by
  induction bytes with
  | nil => rfl
  | cons b rest ih =>
    have hb := utf8EncodeChar_latin1Char b (h b List.mem_cons_self)
    have hrest := ih fun x hx ↦ h x (List.mem_cons_of_mem b hx)
    rw [List.map_cons, utf8Chars_cons, hb, hrest]
    rfl

theorem utf8_latin1 (bytes : List UInt8) :
    utf8 (latin1 bytes) = utf8Chars (bytes.map latin1Char) :=
  utf8_ofList _

theorem length_utf8Chars_latin1 (bytes : List UInt8) :
    bytes.length ≤ (utf8Chars (bytes.map latin1Char)).length := by
  induction bytes with
  | nil => exact Nat.zero_le _
  | cons b rest ih =>
    have hb : 1 ≤ (String.utf8EncodeChar (latin1Char b)).length := by
      rw [String.length_utf8EncodeChar]
      exact Char.utf8Size_pos _
    rw [List.map_cons, utf8Chars_cons, List.length_append, List.length_cons]
    omega

/-- Latin-1 text is the same in UTF-8 exactly when it is ASCII. -/
theorem utf8_latin1_eq_iff {bytes : List UInt8} : utf8 (latin1 bytes) = bytes ↔ Ascii bytes := by
  rw [utf8_latin1]
  refine ⟨fun h ↦ ?_, utf8Chars_latin1_of_ascii⟩
  induction bytes with
  | nil => exact fun b hb ↦ absurd hb List.not_mem_nil
  | cons b rest ih =>
    rw [List.map_cons, utf8Chars_cons] at h
    rcases UInt8.lt_or_le b 128 with hb | hb
    · rw [utf8EncodeChar_latin1Char b hb] at h
      have hrest := ih (List.cons.inj h).2
      intro x hx
      rcases List.mem_cons.mp hx with rfl | hx
      · exact hb
      · exact hrest x hx
    · -- one byte became two
      obtain ⟨x, y, hxy, -, -⟩ := utf8EncodeChar_latin1Char_high b hb
      have hle := length_utf8Chars_latin1 rest
      have hlen := congrArg List.length h
      rw [hxy, List.length_append, List.length_cons, List.length_cons, List.length_nil,
        List.length_cons] at hlen
      omega

/-! ## UTF-8 decoding

An ill-formed sequence becomes one U+FFFD for each of its maximal subparts. -/

/-- How many continuation bytes follow a lead byte, and the bounds of the first of them. -/
def leadBounds (b : UInt8) : Option (Nat × UInt8 × UInt8) :=
  if 0xC2 ≤ b ∧ b ≤ 0xDF then some (1, 0x80, 0xBF)
  else if b = 0xE0 then some (2, 0xA0, 0xBF)
  else if b = 0xED then some (2, 0x80, 0x9F)
  else if 0xE1 ≤ b ∧ b ≤ 0xEF then some (2, 0x80, 0xBF)
  else if b = 0xF0 then some (3, 0x90, 0xBF)
  else if 0xF1 ≤ b ∧ b ≤ 0xF3 then some (3, 0x80, 0xBF)
  else if b = 0xF4 then some (3, 0x80, 0x8F)
  else none

/-- The continuation bytes at the front, at most `n` of them. -/
def continuation : Nat → UInt8 → UInt8 → List UInt8 → List UInt8
  | n + 1, lo, hi, b :: rest =>
    if lo ≤ b ∧ b ≤ hi then b :: continuation n 0x80 0xBF rest else []
  | _, _, _, _ => []

/-- The code point of a well-formed sequence. -/
def codePoint (b : UInt8) (tail : List UInt8) : Nat :=
  tail.foldl (fun n c ↦ n * 64 + c.toNat % 64) (b.toNat % 2 ^ (6 - tail.length))

/-- The first character, and the number of bytes after the first that it takes. -/
def decodeFirst (b : UInt8) (rest : List UInt8) : Char × Nat :=
  if b < 128 then (latin1Char b, 0)
  else
    match leadBounds b with
    | none => ('\uFFFD', 0)
    | some (n, lo, hi) =>
      let tail := continuation n lo hi rest
      if tail.length = n then (Char.ofNat (codePoint b tail), n) else ('\uFFFD', tail.length)

/-- `decodeFrom skip bytes` decodes the bytes after the first `skip`. -/
def decodeFrom : Nat → List UInt8 → List Char
  | _, [] => []
  | skip + 1, _ :: rest => decodeFrom skip rest
  | 0, b :: rest => (decodeFirst b rest).1 :: decodeFrom (decodeFirst b rest).2 rest

/-- `bytes.decode("utf-8", "replace")` -/
def decodeReplace (bytes : List UInt8) : String := String.ofList (decodeFrom 0 bytes)

attribute [local simp] continuation decodeFrom

theorem decodeFrom_skip (skip : Nat) (bytes : List UInt8) :
    decodeFrom skip bytes = decodeFrom 0 (bytes.drop skip) := by
  induction bytes generalizing skip with
  | nil => simp [decodeFrom]
  | cons b rest ih =>
    cases skip with
    | zero => rfl
    | succ skip =>
      rw [List.drop_succ_cons, ← ih]
      rfl

theorem decodeFrom_cons (b : UInt8) (rest : List UInt8) :
    decodeFrom 0 (b :: rest) =
      (decodeFirst b rest).1 :: decodeFrom 0 (rest.drop (decodeFirst b rest).2) := by
  rw [← decodeFrom_skip]
  rfl

theorem decodeFrom_ascii {bytes : List UInt8} (h : Ascii bytes) :
    decodeFrom 0 bytes = bytes.map latin1Char := by
  induction bytes with
  | nil => rfl
  | cons b rest ih =>
    have hfirst : decodeFirst b rest = (latin1Char b, 0) := by
      unfold decodeFirst
      rw [if_pos (h b List.mem_cons_self)]
    rw [decodeFrom_cons, hfirst, List.drop_zero, List.map_cons,
      ih fun x hx ↦ h x (List.mem_cons_of_mem b hx)]

/-- What the bytes can take in UTF-8 after decoding: a byte that is no ASCII at most three. -/
def width (bytes : List UInt8) : Nat := (bytes.map fun b ↦ if b < 128 then 1 else 3).sum

theorem width_cons (b : UInt8) (rest : List UInt8) :
    width (b :: rest) = (if b < 128 then 1 else 3) + width rest := rfl

theorem width_append (a b : List UInt8) : width (a ++ b) = width a + width b := by
  unfold width
  rw [List.map_append, List.sum_append]

theorem continuation_initial (n : Nat) (lo hi : UInt8) (rest : List UInt8) :
    continuation n lo hi rest <+: rest := by
  induction rest generalizing n lo hi with
  | nil => cases n <;> exact List.nil_prefix
  | cons b rest ih =>
    cases n with
    | zero => exact List.nil_prefix
    | succ n =>
      unfold continuation
      split
      · exact List.cons_prefix_cons.mpr ⟨rfl, ih n _ _⟩
      · exact List.nil_prefix

theorem continuation_high (n : Nat) {lo : UInt8} (hi : UInt8) (rest : List UInt8)
    (hlo : 128 ≤ lo) : ∀ b ∈ continuation n lo hi rest, 128 ≤ b := by
  induction rest generalizing n lo hi with
  | nil => cases n <;> exact fun b hb ↦ absurd hb List.not_mem_nil
  | cons c rest ih =>
    cases n with
    | zero => exact fun b hb ↦ absurd hb List.not_mem_nil
    | succ n =>
      unfold continuation
      split
      · rename_i hc
        intro b hb
        rcases List.mem_cons.mp hb with rfl | hb
        · exact UInt8.le_trans hlo hc.1
        · exact ih n _ (by decide) b hb
      · exact fun b hb ↦ absurd hb List.not_mem_nil

theorem leadBounds_some {b : UInt8} {n : Nat} {lo hi : UInt8}
    (h : leadBounds b = some (n, lo, hi)) : 0 < n ∧ 128 ≤ lo := by
  unfold leadBounds at h
  split_ifs at h <;> cases h <;> decide

theorem width_high {bytes : List UInt8} (h : ∀ b ∈ bytes, 128 ≤ b) :
    width bytes = 3 * bytes.length := by
  induction bytes with
  | nil => rfl
  | cons b rest ih =>
    have hb : ¬b < 128 := UInt8.not_lt.mpr (h b List.mem_cons_self)
    rw [width_cons, if_neg hb, ih fun x hx ↦ h x (List.mem_cons_of_mem b hx), List.length_cons]
    omega

/-- The first character against the bytes that it takes. -/
theorem decodeFirst_width (b : UInt8) (rest : List UInt8) :
    (b < 128 ∧ decodeFirst b rest = (latin1Char b, 0)) ∨
    (128 ≤ b ∧ (decodeFirst b rest).1 = '\uFFFD' ∧
      (decodeFirst b rest).1.utf8Size ≤ width (b :: rest.take (decodeFirst b rest).2)) ∨
    (128 ≤ b ∧
      (decodeFirst b rest).1.utf8Size < width (b :: rest.take (decodeFirst b rest).2)) := by
  rcases UInt8.lt_or_le b 128 with hb | hb
  · left
    unfold decodeFirst
    rw [if_pos hb]
    exact ⟨hb, rfl⟩
  · have hnot : ¬b < 128 := UInt8.not_lt.mpr hb
    have hsize : ('\uFFFD' : Char).utf8Size = 3 := by decide
    right
    unfold decodeFirst
    rw [if_neg hnot]
    cases hlead : leadBounds b with
    | none =>
      left
      refine ⟨hb, rfl, ?_⟩
      rw [width_cons, if_neg hnot, hsize]
      omega
    | some bounds =>
      obtain ⟨n, lo, hi⟩ := bounds
      obtain ⟨hpos, hlo⟩ := leadBounds_some hlead
      dsimp only
      split
      · rename_i hlen
        right
        refine ⟨hb, ?_⟩
        -- the bytes after a lead byte are no ASCII either
        have htake : rest.take n = continuation n lo hi rest := by
          conv_lhs => rw [← hlen]
          exact (List.prefix_iff_eq_take.mp (continuation_initial n lo hi rest)).symm
        have hwidth := width_high (continuation_high n hi rest hlo)
        have hfour := Char.utf8Size_le_four (Char.ofNat (codePoint b (continuation n lo hi rest)))
        rw [width_cons, if_neg hnot]
        dsimp only
        rw [htake, hwidth, hlen]
        omega
      · left
        refine ⟨hb, rfl, ?_⟩
        rw [width_cons, if_neg hnot, hsize]
        omega

/-- Decoding to UTF-8 without a replacement character shortens what is no ASCII. -/
theorem length_utf8Chars_decodeFrom (bytes : List UInt8) :
    (utf8Chars (decodeFrom 0 bytes)).length ≤ width bytes ∧
      ('\uFFFD' ∉ decodeFrom 0 bytes → ¬Ascii bytes →
        (utf8Chars (decodeFrom 0 bytes)).length < width bytes) := by
  induction hn : bytes.length using Nat.strong_induction_on generalizing bytes with
  | h n ih =>
    cases bytes with
    | nil => exact ⟨Nat.le_refl _, fun _ h ↦ absurd (fun b hb ↦ absurd hb List.not_mem_nil) h⟩
    | cons b rest =>
      have hlen : (rest.drop (decodeFirst b rest).2).length < n := by
        rw [← hn, List.length_drop, List.length_cons]
        omega
      obtain ⟨hle, hlt⟩ := ih _ hlen _ rfl
      have hsplit : width (b :: rest) = width (b :: rest.take (decodeFirst b rest).2) +
          width (rest.drop (decodeFirst b rest).2) := by
        rw [← width_append, List.cons_append, List.take_append_drop]
      rw [decodeFrom_cons, utf8Chars_cons, List.length_append, String.length_utf8EncodeChar, hsplit,
        List.mem_cons, not_or]
      rcases decodeFirst_width b rest with ⟨hb, hfirst⟩ | ⟨-, hrep, hsize⟩ | ⟨-, hsize⟩
      · have hone : (latin1Char b).utf8Size = 1 := by
          rw [← String.length_utf8EncodeChar, utf8EncodeChar_latin1Char b hb]
          rfl
        rw [hfirst] at hle hlt ⊢
        dsimp only at hle hlt ⊢
        rw [List.drop_zero] at hle hlt ⊢
        rw [List.take_zero, width_cons, if_pos hb, hone]
        have hnil : width [] = 0 := rfl
        refine ⟨by omega, fun hno hascii ↦ ?_⟩
        have hrest : ¬Ascii rest := by
          intro hall
          apply hascii
          intro x hx
          rcases List.mem_cons.mp hx with rfl | hx
          · exact hb
          · exact hall x hx
        have := hlt hno.2 hrest
        omega
      · exact ⟨by omega, fun hno _ ↦ absurd hrep.symm hno.1⟩
      · exact ⟨by omega, fun _ _ ↦ by omega⟩

/-! ## Percent-decoding -/

def hexDigit (b : UInt8) : Option Nat :=
  if 48 ≤ b ∧ b ≤ 57 then some (b.toNat - 48)
  else if 65 ≤ b ∧ b ≤ 70 then some (b.toNat - 55)
  else if 97 ≤ b ∧ b ≤ 102 then some (b.toNat - 87)
  else none

/-- The byte of a `%` with the two digits after it. -/
def escape (a b : UInt8) : Option UInt8 :=
  match hexDigit a, hexDigit b with
  | some high, some low => some (UInt8.ofNat (16 * high + low))
  | _, _ => none

/-- The byte of an escape at the front. -/
def escapeAt : List UInt8 → Option UInt8
  | c :: a :: b :: _ => if c = 37 then escape a b else none
  | _ => none

/-- `unquoteFrom skip bytes` decodes the bytes after the first `skip`. -/
def unquoteFrom : Nat → List UInt8 → List UInt8
  | _, [] => []
  | skip + 1, _ :: rest => unquoteFrom skip rest
  | 0, c :: rest =>
    match escapeAt (c :: rest) with
    | some byte => byte :: unquoteFrom 2 rest
    | none => c :: unquoteFrom 0 rest

/-- Percent-decoding: a `%` that no two hexadecimal digits follow stays. -/
def unquote (bytes : List UInt8) : List UInt8 := unquoteFrom 0 bytes

/-- No `%` with two hexadecimal digits after it. -/
def NoEscape (bytes : List UInt8) : Prop :=
  ∀ before a b after, bytes = before ++ 37 :: a :: b :: after → escape a b = none

attribute [local simp] unquoteFrom

theorem escapeAt_some {bytes : List UInt8} {byte : UInt8} (h : escapeAt bytes = some byte) :
    ∃ a b after, bytes = 37 :: a :: b :: after ∧ escape a b = some byte := by
  unfold escapeAt at h
  split at h
  · split at h
    · rename_i c a b after hc
      exact ⟨a, b, after, by rw [hc], h⟩
    · cases h
  · cases h

theorem NoEscape.tail {c : UInt8} {rest : List UInt8} (h : NoEscape (c :: rest)) :
    NoEscape rest := by
  intro before a b after hrest
  exact h (c :: before) a b after (by rw [hrest]; rfl)

theorem noEscape_cons {c : UInt8} {rest : List UInt8} (h : escapeAt (c :: rest) = none)
    (hrest : NoEscape rest) : NoEscape (c :: rest) := by
  intro before a b after heq
  cases before with
  | nil =>
    rw [heq] at h
    exact h
  | cons d before => exact hrest before a b after (List.cons.inj heq).2

theorem unquoteFrom_skip (skip : Nat) (bytes : List UInt8) :
    unquoteFrom skip bytes = unquote (bytes.drop skip) := by
  unfold unquote
  induction bytes generalizing skip with
  | nil => simp [unquoteFrom]
  | cons c rest ih =>
    cases skip with
    | zero => rfl
    | succ skip =>
      rw [List.drop_succ_cons, ← ih]
      rfl

theorem unquote_cons_none {c : UInt8} {rest : List UInt8} (h : escapeAt (c :: rest) = none) :
    unquote (c :: rest) = c :: unquote rest := by
  unfold unquote
  rw [unquoteFrom, h]

theorem unquote_cons_escape {a b byte : UInt8} {rest : List UInt8}
    (h : escape a b = some byte) : unquote (37 :: a :: b :: rest) = byte :: unquote rest := by
  have hat : escapeAt (37 :: a :: b :: rest) = some byte := by
    unfold escapeAt
    dsimp only
    rw [if_pos rfl, h]
  unfold unquote
  rw [unquoteFrom, hat]
  dsimp only
  rw [unquoteFrom_skip]
  rfl

theorem NoEscape.unquote_eq {bytes : List UInt8} (h : NoEscape bytes) : unquote bytes = bytes := by
  induction bytes with
  | nil => rfl
  | cons c rest ih =>
    have hat : escapeAt (c :: rest) = none := by
      cases hat : escapeAt (c :: rest) with
      | none => rfl
      | some byte =>
        obtain ⟨a, b, after, heq, hescape⟩ := escapeAt_some hat
        rw [h [] a b after heq] at hescape
        cases hescape
    rw [unquote_cons_none hat, ih h.tail]

/-- An escape takes three bytes and becomes one, which is no ASCII or narrower. -/
theorem unquote_width {bytes : List UInt8} (hascii : Ascii bytes) :
    (unquote bytes).length ≤ bytes.length ∧ width (unquote bytes) ≤ bytes.length ∧
      (¬NoEscape bytes → (unquote bytes).length < bytes.length) := by
  induction hn : bytes.length using Nat.strong_induction_on generalizing bytes with
  | h n ih =>
    cases bytes with
    | nil =>
      refine ⟨Nat.zero_le _, Nat.zero_le _, fun h ↦ absurd ?_ h⟩
      exact fun before a b after heq ↦ by simp at heq
    | cons c rest =>
      cases hat : escapeAt (c :: rest) with
      | none =>
        have hrest : Ascii rest := fun x hx ↦ hascii x (List.mem_cons_of_mem c hx)
        have hc : c < 128 := hascii c List.mem_cons_self
        rw [List.length_cons] at hn
        obtain ⟨hle, hwidth, hlt⟩ := ih rest.length (by omega) hrest rfl
        rw [unquote_cons_none hat, List.length_cons, width_cons, if_pos hc]
        refine ⟨by omega, by omega, fun hno ↦ ?_⟩
        have := hlt fun hrest ↦ hno (noEscape_cons hat hrest)
        omega
      | some byte =>
        obtain ⟨a, b, after, heq, hescape⟩ := escapeAt_some hat
        rw [heq] at hascii hn ⊢
        simp only [List.length_cons] at hn
        have hafter : Ascii after := fun x hx ↦ hascii x (by simp [hx])
        obtain ⟨hle, hwidth, -⟩ := ih after.length (by omega) hafter rfl
        have hbyte : (if byte < 128 then 1 else 3) ≤ 3 := by split <;> omega
        rw [unquote_cons_escape hescape, List.length_cons, width_cons]
        exact ⟨by omega, by omega, fun _ ↦ by omega⟩

/-- Decoding never lengthens a path. -/
theorem length_utf8_decodeReplace_unquote {bytes : List UInt8} (hascii : Ascii bytes) :
    (utf8 (decodeReplace (unquote bytes))).length ≤ bytes.length := by
  obtain ⟨-, hwidth, -⟩ := unquote_width hascii
  unfold decodeReplace
  rw [utf8_ofList]
  exact le_trans (length_utf8Chars_decodeFrom _).1 hwidth

/-- Percent-decoding and UTF-8 decoding change a path that is ASCII exactly when it has an
escape. -/
theorem utf8_decodeReplace_unquote_eq_iff {bytes : List UInt8} (hascii : Ascii bytes) :
    utf8 (decodeReplace (unquote bytes)) = bytes ↔ NoEscape bytes := by
  unfold decodeReplace
  rw [utf8_ofList]
  constructor
  · intro h
    by_contra hno
    obtain ⟨-, hwidth, hlt⟩ := unquote_width hascii
    by_cases hall : Ascii (unquote bytes)
    · -- every escape is of an ASCII byte
      rw [decodeFrom_ascii hall, utf8Chars_latin1_of_ascii hall] at h
      have := hlt hno
      rw [h] at this
      exact absurd this (lt_irrefl _)
    · -- a replacement character is no ASCII
      have hrep : '\uFFFD' ∉ decodeFrom 0 (unquote bytes) := by
        intro hmem
        have hbyte : (0xEF : UInt8) ∈ utf8Chars (decodeFrom 0 (unquote bytes)) :=
          List.mem_flatMap.mpr ⟨_, hmem, by decide +kernel⟩
        rw [h] at hbyte
        exact absurd (hascii _ hbyte) (by decide)
      have := (length_utf8Chars_decodeFrom (unquote bytes)).2 hrep hall
      rw [h] at this
      omega
  · intro hno
    rw [hno.unquote_eq, decodeFrom_ascii hascii, utf8Chars_latin1_of_ascii hascii]

end Reasoning
