import Mathlib
import TandemAio.Reasoning.CodePoints

/-!
# Rust strings

String literals, format strings with `{{`, `}}` and `{}`, and the expressions that make a `String`
of them: `String::from("..")` and `format!("..", x, y)`.  A source text is a list of code points; it
is UTF-8 on disk, and so has no surrogates.
-/

namespace Reasoning

/-! ## Literals -/

inductive LiteralMode
  /-- In the text, or in the white space of a continued line. -/
  | text (skipping : Bool)
  /-- After a carriage return, which is read as one with the line feed after it. -/
  | cr
  | escape
  | escapeCr
  /-- In `\x`, with its first digit. -/
  | hex (first : Option Nat)
  | openUnicode
  /-- In `\u`, after some digits. -/
  | unicode (digits value : Nat)

/-- The character of an escape other than `\x` and `\u`. -/
def simpleEscape (c : CodePoint) : Option CodePoint :=
  ([('n', '\n'), ('r', '\r'), ('t', '\t'), ('\\', '\\'), ('0', '\x00'), ('\'', '\''),
    ('"', '"')].find? fun (letter, _) ↦ charPoint letter = c).map fun (_, char) ↦ charPoint char

/-- White space that a continued line skips. -/
def continuationSpace (c : CodePoint) : Prop :=
  c = charPoint ' ' ∨ c = charPoint '\t' ∨ c = charPoint '\n' ∨ c = charPoint '\r'

instance (c : CodePoint) : Decidable (continuationSpace c) := inferInstanceAs (Decidable (_ ∨ _))

/-- What a literal has read before it goes on. -/
def push (c : CodePoint) : Option (PyStr × PyStr) → Option (PyStr × PyStr) :=
  Option.map fun (value, rest) ↦ (c :: value, rest)

/-- The value of a literal, read from after its opening quote, and what follows its closing one. -/
def readLiteral : LiteralMode → PyStr → Option (PyStr × PyStr)
  | _, [] => none
  | .text skipping, c :: rest =>
    if skipping = true ∧ continuationSpace c then readLiteral (.text true) rest
    else if c = charPoint '"' then some ([], rest)
    else if c = charPoint '\\' then readLiteral .escape rest
    else if c = charPoint '\r' then readLiteral .cr rest
    else push c (readLiteral (.text false) rest)
  | .cr, c :: rest => if c = charPoint '\n' then push c (readLiteral (.text false) rest) else none
  | .escape, c :: rest =>
    if c = charPoint 'x' then readLiteral (.hex none) rest
    else if c = charPoint 'u' then readLiteral .openUnicode rest
    else if c = charPoint '\n' then readLiteral (.text true) rest
    else if c = charPoint '\r' then readLiteral .escapeCr rest
    else
      match simpleEscape c with
      | none => none
      | some char => push char (readLiteral (.text false) rest)
  | .escapeCr, c :: rest => if c = charPoint '\n' then readLiteral (.text true) rest else none
  | .hex first, c :: rest =>
    match first, hexValue c with
    | _, none => none
    | none, some digit => if digit < 8 then readLiteral (.hex (some digit)) rest else none
    | some high, some low =>
      push (Fin.ofNat 0x110000 (high * 16 + low)) (readLiteral (.text false) rest)
  | .openUnicode, c :: rest =>
    if c = charPoint '\x7b' then readLiteral (.unicode 0 0) rest else none
  | .unicode digits value, c :: rest =>
    if digits ≠ 0 ∧ c = charPoint '\x7d' then
      let char : CodePoint := Fin.ofNat 0x110000 value
      if value < 0x110000 ∧ ¬char.IsSurrogate then push char (readLiteral (.text false) rest)
      else none
    else if digits ≠ 0 ∧ c = charPoint '_' then readLiteral (.unicode digits value) rest
    else
      match hexValue c with
      | none => none
      | some digit =>
        if digits < 6 then readLiteral (.unicode (digits + 1) (value * 16 + digit)) rest else none

/-! What is read of one character, in each mode. -/

section Character

variable (c : CodePoint) (rest : PyStr)

theorem readLiteral_text (skipping : Bool) : readLiteral (.text skipping) (c :: rest) =
    if skipping = true ∧ continuationSpace c then readLiteral (.text true) rest
    else if c = charPoint '"' then some ([], rest)
    else if c = charPoint '\\' then readLiteral .escape rest
    else if c = charPoint '\r' then readLiteral .cr rest
    else push c (readLiteral (.text false) rest) := rfl

theorem readLiteral_cr : readLiteral .cr (c :: rest) =
    if c = charPoint '\n' then push c (readLiteral (.text false) rest) else none := rfl

theorem readLiteral_escape : readLiteral .escape (c :: rest) =
    if c = charPoint 'x' then readLiteral (.hex none) rest
    else if c = charPoint 'u' then readLiteral .openUnicode rest
    else if c = charPoint '\n' then readLiteral (.text true) rest
    else if c = charPoint '\r' then readLiteral .escapeCr rest
    else
      match simpleEscape c with
      | none => none
      | some char => push char (readLiteral (.text false) rest) := rfl

theorem readLiteral_escapeCr : readLiteral .escapeCr (c :: rest) =
    if c = charPoint '\n' then readLiteral (.text true) rest else none := rfl

theorem readLiteral_hex (first : Option Nat) : readLiteral (.hex first) (c :: rest) =
    match first, hexValue c with
    | _, none => none
    | none, some digit => if digit < 8 then readLiteral (.hex (some digit)) rest else none
    | some high, some low =>
      push (Fin.ofNat 0x110000 (high * 16 + low)) (readLiteral (.text false) rest) := rfl

theorem readLiteral_openUnicode : readLiteral .openUnicode (c :: rest) =
    if c = charPoint '\x7b' then readLiteral (.unicode 0 0) rest else none := rfl

theorem readLiteral_unicode (digits value : Nat) : readLiteral (.unicode digits value) (c :: rest) =
    if digits ≠ 0 ∧ c = charPoint '\x7d' then
      let char : CodePoint := Fin.ofNat 0x110000 value
      if value < 0x110000 ∧ ¬char.IsSurrogate then push char (readLiteral (.text false) rest)
      else none
    else if digits ≠ 0 ∧ c = charPoint '_' then readLiteral (.unicode digits value) rest
    else
      match hexValue c with
      | none => none
      | some digit =>
        if digits < 6 then readLiteral (.unicode (digits + 1) (value * 16 + digit)) rest
        else none := rfl

end Character

/-! ## Format strings -/

inductive FormatMode
  | text
  | opened
  | closed

/-- The text that a format string makes of its arguments, each of which must be used. -/
def formatWith : FormatMode → PyStr → List PyStr → Option PyStr
  | .text, [], [] => some []
  | .text, [], _ :: _ => none
  | .opened, [], _ => none
  | .closed, [], _ => none
  | .text, c :: rest, args =>
    if c = charPoint '\x7b' then formatWith .opened rest args
    else if c = charPoint '\x7d' then formatWith .closed rest args
    else (formatWith .text rest args).map (c :: ·)
  | .opened, c :: rest, args =>
    if c = charPoint '\x7b' then (formatWith .text rest args).map (c :: ·)
    else if c = charPoint '\x7d' then
      match args with
      | [] => none
      | arg :: args => (formatWith .text rest args).map (arg ++ ·)
    else none
  | .closed, c :: rest, args =>
    if c = charPoint '\x7d' then (formatWith .text rest args).map (c :: ·) else none

/-! ## Names -/

/-- The identifiers of Unicode, which Python and Rust share. -/
class Xid where
  start : CodePoint → Bool
  continues : CodePoint → Bool
  start_ascii : ∀ c : CodePoint, c.val < 128 → start c = (Char.ofNat c.val).isAlpha
  continues_ascii : ∀ c : CodePoint, c.val < 128 →
    continues c = ((Char.ofNat c.val).isAlphanum || c = charPoint '_')
  continues_of_start : ∀ c, start c = true → continues c = true
  not_surrogate : ∀ c : CodePoint, continues c = true → ¬c.IsSurrogate

/-- An identifier, or `_` alone. -/
def IsName [Xid] (name : PyStr) : Prop :=
  ∃ c rest, name = c :: rest ∧ (Xid.start c = true ∨ c = charPoint '_') ∧
    ∀ d ∈ rest, Xid.continues d = true

/-! ## Expressions -/

section Expressions

variable [Xid]

inductive ArgumentMode
  | before
  | name (read : PyStr)

/-- The end of the arguments, or the next of them. -/
def argumentsEnd (c : CodePoint) (rest : PyStr) (more : Option (List PyStr)) :
    Option (List PyStr) :=
  if c = charPoint ')' then if rest = [] then some [] else none
  else if c = charPoint ',' then more
  else none

/-- The names up to the end of an expression.  A reserved word is no name. -/
def readNames (reserved : PyStr → Bool) : ArgumentMode → PyStr → Option (List PyStr)
  | _, [] => none
  | .before, c :: rest =>
    if c = charPoint ' ' then readNames reserved .before rest
    else if Xid.start c = true ∨ c = charPoint '_' then readNames reserved (.name [c]) rest
    else none
  | .name read, c :: rest =>
    if Xid.continues c then readNames reserved (.name (read ++ [c])) rest
    else if reserved read then none
    else (argumentsEnd c rest (readNames reserved .before rest)).map (read :: ·)

/-- What follows a literal that is an argument: names, and the end of the expression. -/
def readArguments (reserved : PyStr → Bool) : PyStr → Option (List PyStr)
  | [] => none
  | c :: rest => argumentsEnd c rest (readNames reserved .before rest)

/-- What is left of a text that starts with another one. -/
def stripStart (start source : PyStr) : Option PyStr :=
  if start <+: source then some (source.drop start.length) else none

/-- The value of a string expression, with the strings that its names stand for. -/
def stringExpr (reserved : PyStr → Bool) (env : PyStr → PyStr) (source : PyStr) : Option PyStr :=
  if ∃ c ∈ source, CodePoint.IsSurrogate c then none
  else
    match stripStart (points "String::from(\"") source, stripStart (points "format!(\"") source with
    | some body, _ => do
      let (value, rest) ← readLiteral (.text false) body
      if rest = points ")" then some value else none
    | none, some body => do
      let (value, rest) ← readLiteral (.text false) body
      let names ← readArguments reserved rest
      formatWith .text value (names.map env)
    | none, none => none

end Expressions

/-! ## Reading shortens

An escape is longer than its character, and so is a carriage return with its line feed.  Braces may
weigh less than the other characters: none of them is read before something else of an escape. -/

section Weight

def IsBrace (c : CodePoint) : Prop := c = charPoint '\x7b' ∨ c = charPoint '\x7d'

instance (c : CodePoint) : Decidable (IsBrace c) := inferInstanceAs (Decidable (_ ∨ _))

/-- The characters that a literal does not hold as they are. -/
def IsSpecial (c : CodePoint) : Prop :=
  c = charPoint '"' ∨ c = charPoint '\\' ∨ c = charPoint '\r'

instance (c : CodePoint) : Decidable (IsSpecial c) := inferInstanceAs (Decidable (_ ∨ _))

variable {brace other : Nat}

def charWeight (brace other : Nat) (c : CodePoint) : Nat := if IsBrace c then brace else other

def weight (brace other : Nat) (s : PyStr) : Nat := (s.map (charWeight brace other)).sum

theorem weight_nil : weight brace other [] = 0 := rfl

theorem weight_cons (c : CodePoint) (s : PyStr) :
    weight brace other (c :: s) = charWeight brace other c + weight brace other s := by
  unfold weight
  rw [List.map_cons, List.sum_cons]

theorem weight_append (s t : PyStr) :
    weight brace other (s ++ t) = weight brace other s + weight brace other t := by
  unfold weight
  rw [List.map_append, List.sum_append]

theorem charWeight_le (h : brace ≤ other) (c : CodePoint) : charWeight brace other c ≤ other := by
  unfold charWeight
  split
  · exact h
  · exact Nat.le_refl _

theorem charWeight_of_not {c : CodePoint} (h : ¬IsBrace c) : charWeight brace other c = other :=
  if_neg h

/-- How much a value weighs against the text it is read from, in each mode. -/
def ReadBound (brace other : Nat) (s value : PyStr) : LiteralMode → Prop
  | .text false => (value = s ∧ ∀ c ∈ s, ¬IsSpecial c) ∨
      weight brace other value < weight brace other s
  -- the digits that are read already weigh more than the closing brace lacks
  | .unicode (_ + 1) _ => weight brace other value ≤ weight brace other s + other
  | _ => weight brace other value ≤ weight brace other s

theorem ReadBound.le {s value : PyStr} (h : ReadBound brace other s value (.text false)) :
    weight brace other value ≤ weight brace other s := by
  rcases h with ⟨rfl, -⟩ | hlt
  · exact Nat.le_refl _
  · exact Nat.le_of_lt hlt

theorem push_eq_some {c : CodePoint} {result : Option (PyStr × PyStr)} {value rest : PyStr} :
    push c result = some (value, rest) ↔
      ∃ value', result = some (value', rest) ∧ value = c :: value' := by
  unfold push
  cases result with
  | none => simp
  | some out =>
    obtain ⟨value', rest'⟩ := out
    constructor
    · intro h
      cases h
      exact ⟨value', rfl, rfl⟩
    · rintro ⟨_, h, rfl⟩
      cases h
      rfl

theorem ReadBound.text {s value : PyStr} (h : ReadBound brace other s value (.text false))
    (skipping : Bool) : ReadBound brace other s value (.text skipping) := by
  cases skipping with
  | false => exact h
  | true => exact h.le

theorem not_brace_of_hex {c : CodePoint} {digit : Nat} (h : hexValue c = some digit) :
    ¬IsBrace c := by
  have hopen : hexValue (charPoint '\x7b') = none := by decide
  have hclose : hexValue (charPoint '\x7d') = none := by decide
  rintro (rfl | rfl)
  · rw [hopen] at h
    cases h
  · rw [hclose] at h
    cases h

theorem not_brace_of_simpleEscape {c char : CodePoint} (h : simpleEscape c = some char) :
    ¬IsBrace c := by
  have hopen : simpleEscape (charPoint '\x7b') = none := by decide
  have hclose : simpleEscape (charPoint '\x7d') = none := by decide
  rintro (rfl | rfl)
  · rw [hopen] at h
    cases h
  · rw [hclose] at h
    cases h

/-- What is read of `input` up to its closing quote is no heavier than the text of it. -/
def LiteralBound (brace other : Nat) (mode : LiteralMode) (input value rest : PyStr) : Prop :=
  ∃ s, input = s ++ charPoint '"' :: rest ∧ ReadBound brace other s value mode

section Step

variable {input value rest : PyStr} {c : CodePoint}

/-- Nothing is read of `c`. -/
theorem LiteralBound.skip {mode : LiteralMode} (h : LiteralBound brace other mode input value rest)
    (hbound : ∀ s, ReadBound brace other s value mode →
      weight brace other value ≤ weight brace other s) :
    ∃ s, c :: input = s ++ charPoint '"' :: rest ∧
      weight brace other value ≤ weight brace other s := by
  obtain ⟨s, rfl, hs⟩ := h
  have hs' := hbound s hs
  refine ⟨c :: s, rfl, ?_⟩
  rw [weight_cons]
  omega

/-- `c`, which is no brace, ends what is read as one character. -/
theorem LiteralBound.push (hle : brace ≤ other)
    (h : LiteralBound brace other (.text false) input value rest) (hc : ¬IsBrace c)
    (char : CodePoint) :
    ∃ s, c :: input = s ++ charPoint '"' :: rest ∧
      weight brace other (char :: value) ≤ weight brace other s := by
  obtain ⟨s, rfl, hs⟩ := h
  have hs' := hs.le
  have hchar := charWeight_le hle char
  refine ⟨c :: s, rfl, ?_⟩
  rw [weight_cons, weight_cons, charWeight_of_not hc]
  omega

/-- `c` begins an escape or a line end. -/
theorem LiteralBound.special {mode : LiteralMode} (hpos : 0 < other)
    (h : LiteralBound brace other mode input value rest)
    (hbound : ∀ s, ReadBound brace other s value mode →
      weight brace other value ≤ weight brace other s) (hc : ¬IsBrace c) (skipping : Bool) :
    LiteralBound brace other (.text skipping) (c :: input) value rest := by
  obtain ⟨s, rfl, hs⟩ := h
  have hs' := hbound s hs
  refine ⟨c :: s, rfl, ReadBound.text (Or.inr ?_) skipping⟩
  rw [weight_cons, charWeight_of_not hc]
  omega

/-- `c` is read as itself. -/
theorem LiteralBound.plain (h : LiteralBound brace other (.text false) input value rest)
    (hc : ¬IsSpecial c) (skipping : Bool) :
    LiteralBound brace other (.text skipping) (c :: input) (c :: value) rest := by
  obtain ⟨s, rfl, hs⟩ := h
  refine ⟨c :: s, rfl, ReadBound.text ?_ skipping⟩
  rcases hs with ⟨rfl, hplain⟩ | hlt
  · left
    refine ⟨rfl, fun d hd ↦ ?_⟩
    rcases List.mem_cons.mp hd with rfl | hd
    · exact hc
    · exact hplain d hd
  · right
    rw [weight_cons, weight_cons]
    omega

variable (ih : ∀ {mode : LiteralMode} {value : PyStr},
  readLiteral mode input = some (value, rest) → LiteralBound brace other mode input value rest)

include ih

theorem readLiteral_bound_text (hpos : 0 < other) {skipping : Bool}
    (h : readLiteral (.text skipping) (c :: input) = some (value, rest)) :
    LiteralBound brace other (.text skipping) (c :: input) value rest := by
  rw [readLiteral_text] at h
  split_ifs at h with hskip hquote hescape hreturn
  · rw [hskip.1]
    exact (ih h).skip fun _ hs ↦ hs
  · cases h
    rw [hquote]
    exact ⟨[], rfl, ReadBound.text (Or.inl ⟨rfl, by simp⟩) skipping⟩
  · exact (ih h).special hpos (fun _ hs ↦ hs) (by rw [hescape]; decide) skipping
  · exact (ih h).special hpos (fun _ hs ↦ hs) (by rw [hreturn]; decide) skipping
  · obtain ⟨value', h', rfl⟩ := push_eq_some.mp h
    refine (ih h').plain ?_ skipping
    rintro (h | h | h)
    · exact hquote h
    · exact hescape h
    · exact hreturn h

theorem readLiteral_bound_escape (hle : brace ≤ other)
    (h : readLiteral .escape (c :: input) = some (value, rest)) :
    LiteralBound brace other .escape (c :: input) value rest := by
  rw [readLiteral_escape] at h
  split_ifs at h
  · exact (ih h).skip fun _ hs ↦ hs
  · exact (ih h).skip fun _ hs ↦ hs
  · exact (ih h).skip fun _ hs ↦ hs
  · exact (ih h).skip fun _ hs ↦ hs
  · split at h
    · cases h
    · rename_i char hchar
      obtain ⟨value', h', rfl⟩ := push_eq_some.mp h
      exact (ih h').push hle (not_brace_of_simpleEscape hchar) char

theorem readLiteral_bound_hex (hle : brace ≤ other) {first : Option Nat}
    (h : readLiteral (.hex first) (c :: input) = some (value, rest)) :
    LiteralBound brace other (.hex first) (c :: input) value rest := by
  rw [readLiteral_hex] at h
  cases hdigit : hexValue c with
  | none =>
    rw [hdigit] at h
    cases first <;> cases h
  | some digit =>
    rw [hdigit] at h
    cases first with
    | none =>
      dsimp only at h
      split_ifs at h
      exact (ih h).skip fun _ hs ↦ hs
    | some high =>
      obtain ⟨value', h', rfl⟩ := push_eq_some.mp h
      exact (ih h').push hle (not_brace_of_hex hdigit) _

theorem readLiteral_bound_unicode (hle : brace ≤ other) {digits code : Nat}
    (h : readLiteral (.unicode digits code) (c :: input) = some (value, rest)) :
    LiteralBound brace other (.unicode digits code) (c :: input) value rest := by
  rw [readLiteral_unicode] at h
  split at h
  · rename_i hclose
    dsimp only at h
    split_ifs at h
    obtain ⟨value', h', rfl⟩ := push_eq_some.mp h
    obtain ⟨s, rfl, hs⟩ := ih h'
    have hs' := hs.le
    have hchar := charWeight_le hle (Fin.ofNat 0x110000 code)
    obtain ⟨n, rfl⟩ := Nat.exists_eq_succ_of_ne_zero hclose.1
    refine ⟨c :: s, rfl, ?_⟩
    show weight brace other (_ :: value') ≤ weight brace other (c :: s) + other
    rw [weight_cons, weight_cons]
    omega
  · split at h
    · rename_i hunderscore
      obtain ⟨s, rfl, hs⟩ := ih h
      obtain ⟨n, rfl⟩ := Nat.exists_eq_succ_of_ne_zero hunderscore.1
      have hs' : weight brace other value ≤ weight brace other s + other := hs
      refine ⟨c :: s, rfl, ?_⟩
      show weight brace other value ≤ weight brace other (c :: s) + other
      rw [weight_cons]
      omega
    · split at h
      · cases h
      · rename_i digit hdigit
        split_ifs at h
        obtain ⟨s, rfl, hs⟩ := ih h
        have hs' : weight brace other value ≤ weight brace other s + other := hs
        have hw : weight brace other value ≤ weight brace other (c :: s) := by
          rw [weight_cons, charWeight_of_not (not_brace_of_hex hdigit)]
          omega
        refine ⟨c :: s, rfl, ?_⟩
        cases digits with
        | zero => exact hw
        | succ n =>
          show weight brace other value ≤ weight brace other (c :: s) + other
          omega

end Step

theorem readLiteral_bound (hle : brace ≤ other) (hpos : 0 < other) (mode : LiteralMode)
    {input value rest : PyStr} (h : readLiteral mode input = some (value, rest)) :
    LiteralBound brace other mode input value rest := by
  induction input generalizing mode value with
  | nil => cases mode <;> cases h
  | cons c input ih =>
    have ih' : ∀ {mode : LiteralMode} {value : PyStr}, readLiteral mode input = some (value, rest) →
        LiteralBound brace other mode input value rest := fun h ↦ ih _ h
    cases mode with
    | text skipping => exact readLiteral_bound_text ih' hpos h
    | cr =>
      rw [readLiteral_cr] at h
      split_ifs at h with hfeed
      obtain ⟨value', h', rfl⟩ := push_eq_some.mp h
      exact (ih' h').push hle (by rw [hfeed]; decide) c
    | escape => exact readLiteral_bound_escape ih' hle h
    | escapeCr =>
      rw [readLiteral_escapeCr] at h
      split_ifs at h
      exact (ih' h).skip fun _ hs ↦ hs
    | hex first => exact readLiteral_bound_hex ih' hle h
    | openUnicode =>
      rw [readLiteral_openUnicode] at h
      split_ifs at h
      exact (ih' h).skip fun _ hs ↦ hs
    | unicode digits code => exact readLiteral_bound_unicode ih' hle h

end Weight

/-! ## Plain text -/

section Plain

/-- A literal without escapes is read as it is. -/
theorem readLiteral_plain {s : PyStr} (h : ∀ c ∈ s, ¬IsSpecial c) (rest : PyStr) :
    readLiteral (.text false) (s ++ charPoint '"' :: rest) = some (s, rest) := by
  induction s with
  | nil =>
    rw [List.nil_append, readLiteral_text, if_neg (by simp), if_pos rfl]
  | cons c s ih =>
    have hc := h c List.mem_cons_self
    have hquote : c ≠ charPoint '"' := fun heq ↦ hc (Or.inl heq)
    have hescape : c ≠ charPoint '\\' := fun heq ↦ hc (Or.inr (Or.inl heq))
    have hreturn : c ≠ charPoint '\r' := fun heq ↦ hc (Or.inr (Or.inr heq))
    rw [List.cons_append, readLiteral_text, if_neg (by simp), if_neg hquote, if_neg hescape,
      if_neg hreturn, ih fun d hd ↦ h d (List.mem_cons_of_mem _ hd)]
    rfl

/-- A literal ends at its last quote if there is none after it. -/
theorem append_quote_inj {s t after rest : PyStr} (hafter : charPoint '"' ∉ after)
    (hrest : charPoint '"' ∉ rest)
    (h : s ++ charPoint '"' :: after = t ++ charPoint '"' :: rest) : s = t ∧ after = rest := by
  induction s generalizing t with
  | nil =>
    cases t with
    | nil => exact ⟨rfl, (List.cons.inj h).2⟩
    | cons d t =>
      exfalso
      apply hafter
      rw [(List.cons.inj h).2]
      exact List.mem_append_right _ List.mem_cons_self
  | cons c s ih =>
    cases t with
    | nil =>
      exfalso
      apply hrest
      rw [← (List.cons.inj h).2]
      exact List.mem_append_right _ List.mem_cons_self
    | cons d t =>
      obtain ⟨hs, hrest'⟩ := ih (List.cons.inj h).2
      rw [hs, (List.cons.inj h).1]
      exact ⟨rfl, hrest'⟩

end Plain

/-! ## Formatting -/

section Formatting

/-- Text with its braces doubled. -/
def doubleBraces (s : PyStr) : PyStr := s.flatMap fun c ↦ if IsBrace c then [c, c] else [c]

theorem formatWith_opened_brace (rest : PyStr) (args : List PyStr) :
    formatWith .opened (charPoint '\x7b' :: rest) args =
      (formatWith .text rest args).map (charPoint '\x7b' :: ·) := by
  rw [formatWith.eq_def]
  exact if_pos rfl

theorem formatWith_doubleBraces (s rest : PyStr) (args : List PyStr) :
    formatWith .text (doubleBraces s ++ rest) args =
      (formatWith .text rest args).map (s ++ ·) := by
  have hne : charPoint '\x7d' ≠ charPoint '\x7b' := by decide
  induction s with
  | nil =>
    simp [doubleBraces]
  | cons c s ih =>
    unfold doubleBraces at ih ⊢
    rw [List.flatMap_cons, List.append_assoc]
    have hmap : (formatWith .text rest args).map (c :: s ++ ·) =
        ((formatWith .text rest args).map (s ++ ·)).map (c :: ·) := by
      rw [Option.map_map]
      rfl
    rw [hmap, ← ih]
    by_cases hopen : c = charPoint '\x7b'
    · have hbrace : IsBrace c := Or.inl hopen
      rw [if_pos hbrace, hopen]
      show formatWith .text (charPoint '\x7b' :: charPoint '\x7b' :: _) args = _
      rw [formatWith, if_pos rfl, formatWith_opened_brace]
      rfl
    · by_cases hclose : c = charPoint '\x7d'
      · have hbrace : IsBrace c := Or.inr hclose
        rw [if_pos hbrace, hclose]
        show formatWith .text (charPoint '\x7d' :: charPoint '\x7d' :: _) args = _
        rw [formatWith, if_neg hne, if_pos rfl, formatWith, if_pos rfl]
        rfl
      · have hbrace : ¬IsBrace c := fun h ↦ h.elim hopen hclose
        rw [if_neg hbrace]
        show formatWith .text (c :: _) args = _
        rw [formatWith, if_neg hopen, if_neg hclose]
        rfl

theorem formatWith_hole (rest arg : PyStr) (args : List PyStr) :
    formatWith .text (points "\x7b\x7d" ++ rest) (arg :: args) =
      (formatWith .text rest args).map (arg ++ ·) := by
  show formatWith .text (charPoint '\x7b' :: charPoint '\x7d' :: rest) (arg :: args) = _
  rw [formatWith, if_pos rfl, formatWith, if_neg (by decide), if_pos rfl]

/-- The length of formatted text follows from that of the format string, where a brace counts as
half a character. -/
theorem formatWith_length {mode : FormatMode} {s : PyStr} {args : List PyStr} {result : PyStr}
    (h : formatWith mode s args = some result) :
    2 * result.length + 2 * args.length = weight 1 2 s + 2 * (args.map List.length).sum +
      (match mode with | .text => 0 | .opened => 1 | .closed => 1) := by
  induction s generalizing mode args result with
  | nil =>
    cases mode with
    | text =>
      cases args with
      | nil =>
        cases h
        rfl
      | cons arg args => cases h
    | opened => cases h
    | closed => cases h
  | cons c s ih =>
    have hbrace : ∀ {d : Char}, c = charPoint d → IsBrace (charPoint d) →
        weight 1 2 (c :: s) = 1 + weight 1 2 s := by
      intro d hd hb
      rw [weight_cons, hd, charWeight, if_pos hb]
    cases mode with
    | text =>
      rw [formatWith] at h
      split_ifs at h with hopen hclose
      · have hs := ih h
        rw [hbrace hopen (by decide)]
        dsimp only at hs ⊢
        omega
      · have hs := ih h
        rw [hbrace hclose (by decide)]
        dsimp only at hs ⊢
        omega
      · obtain ⟨result', h', rfl⟩ := Option.map_eq_some_iff.mp h
        have hs := ih h'
        have hnot : ¬IsBrace c := fun hb ↦ hb.elim hopen hclose
        rw [weight_cons, charWeight_of_not hnot, List.length_cons]
        dsimp only at hs ⊢
        omega
    | opened =>
      rw [formatWith.eq_def] at h
      dsimp only at h
      split_ifs at h with hopen hclose
      · obtain ⟨result', h', rfl⟩ := Option.map_eq_some_iff.mp h
        have hs := ih h'
        rw [hbrace hopen (by decide), List.length_cons]
        dsimp only at hs ⊢
        omega
      · cases args with
        | nil => cases h
        | cons arg args =>
          obtain ⟨result', h', rfl⟩ := Option.map_eq_some_iff.mp h
          have hs := ih h'
          rw [hbrace hclose (by decide), List.length_append, List.length_cons, List.map_cons,
            List.sum_cons]
          dsimp only at hs ⊢
          omega
    | closed =>
      rw [formatWith] at h
      split_ifs at h with hclose
      obtain ⟨result', h', rfl⟩ := Option.map_eq_some_iff.mp h
      have hs := ih h'
      rw [hbrace hclose (by decide), List.length_cons]
      dsimp only at hs ⊢
      omega

end Formatting

/-! ## Arguments -/

section Arguments

variable [Xid] {reserved : PyStr → Bool}

/-- A character of ASCII that ends a name. -/
theorem not_continues {c : Char} (h : c ∈ [',', ')', '"', ' ']) :
    Xid.continues (charPoint c) = false := by
  have hcases : c = ',' ∨ c = ')' ∨ c = '"' ∨ c = ' ' := by simpa using h
  have hascii : (charPoint c).val < 128 ∧
      ((Char.ofNat (charPoint c).val).isAlphanum || charPoint c = charPoint '_') = false := by
    rcases hcases with rfl | rfl | rfl | rfl <;> decide
  obtain ⟨hlt, hnot⟩ := hascii
  rw [Xid.continues_ascii _ hlt, hnot]

theorem not_starts {c : Char} (h : c ∈ [',', ')', '"', ' ']) :
    ¬(Xid.start (charPoint c) = true ∨ charPoint c = charPoint '_') := by
  rintro (hstart | hunderscore)
  · have hcontinues := Xid.continues_of_start _ hstart
    rw [not_continues h] at hcontinues
    cases hcontinues
  · rw [charPoint_inj] at hunderscore
    rw [hunderscore] at h
    revert h
    decide

theorem readNames_name {read more : PyStr} {c : Char} (hmore : ∀ d ∈ more, Xid.continues d = true)
    (hc : Xid.continues (charPoint c) = false) (rest : PyStr) :
    readNames reserved (.name read) (more ++ charPoint c :: rest) =
      if reserved (read ++ more) then none
      else (argumentsEnd (charPoint c) rest (readNames reserved .before rest)).map
        ((read ++ more) :: ·) := by
  induction more generalizing read with
  | nil =>
    rw [List.nil_append, readNames, if_neg (by simp [hc]), List.append_nil]
  | cons d more ih =>
    rw [List.cons_append, readNames, if_pos (hmore d List.mem_cons_self),
      ih fun x hx ↦ hmore x (List.mem_cons_of_mem _ hx), List.append_assoc, List.singleton_append]

/-- The arguments of an expression, as they are written. -/
def argumentsText (names : List PyStr) : PyStr :=
  names.flatMap (fun name ↦ points ", " ++ name) ++ points ")"

theorem readArguments_cons {name : PyStr} (hname : IsName name) (names : List PyStr) :
    readArguments reserved (argumentsText (name :: names)) =
      if reserved name then none
      else (readArguments reserved (argumentsText names)).map (name :: ·) := by
  obtain ⟨c, more, rfl, hc, hmore⟩ := hname
  have hspace : c ≠ charPoint ' ' := by
    rintro rfl
    exact not_starts (by decide) hc
  have htext : argumentsText ((c :: more) :: names) = charPoint ',' :: charPoint ' ' ::
      (c :: (more ++ argumentsText names)) := by
    unfold argumentsText
    rw [List.flatMap_cons, List.append_assoc, List.append_assoc]
    rfl
  -- what follows the name ends it
  obtain ⟨d, rest, hd, hrest⟩ : ∃ d rest, d ∈ [',', ')', '"', ' '] ∧
      argumentsText names = charPoint d :: rest := by
    cases names with
    | nil => exact ⟨')', [], by decide, rfl⟩
    | cons next names => exact ⟨',', _, by decide, rfl⟩
  rw [htext, readArguments, argumentsEnd, if_neg (by decide), if_pos rfl, readNames, if_pos rfl,
    readNames, if_neg hspace, if_pos hc, hrest, readNames_name hmore (not_continues hd)]
  rfl

/-- Names are read back unless one of them is reserved. -/
theorem readArguments_names (reserved : PyStr → Bool) {names : List PyStr}
    (h : ∀ name ∈ names, IsName name) :
    readArguments reserved (argumentsText names) =
      if ∀ name ∈ names, reserved name = false then some names else none := by
  induction names with
  | nil =>
    rw [if_pos (by simp)]
    rfl
  | cons name names ih =>
    rw [readArguments_cons (h name List.mem_cons_self),
      ih fun x hx ↦ h x (List.mem_cons_of_mem _ hx)]
    by_cases hreserved : reserved name = true
    · rw [if_pos hreserved, if_neg]
      intro hall
      rw [hall name List.mem_cons_self] at hreserved
      cases hreserved
    · rw [if_neg hreserved]
      have hname : reserved name = false := by simpa using hreserved
      by_cases hall : ∀ x ∈ names, reserved x = false
      · rw [if_pos hall, if_pos]
        · rfl
        · intro x hx
          rcases List.mem_cons.mp hx with rfl | hx
          · exact hname
          · exact hall x hx
      · rw [if_neg hall, if_neg fun hcons ↦ hall fun x hx ↦ hcons x (List.mem_cons_of_mem _ hx)]
        rfl

omit [Xid] in
/-- There is no quote among arguments. -/
theorem argumentsEnd_no_quote {c : CodePoint} {rest : PyStr} {more : Option (List PyStr)}
    {names : List PyStr} (h : argumentsEnd c rest more = some names)
    (hmore : ∀ names, more = some names → charPoint '"' ∉ rest) : charPoint '"' ∉ c :: rest := by
  have hneither : charPoint '"' ≠ charPoint ')' ∧ charPoint '"' ≠ charPoint ',' := by decide
  unfold argumentsEnd at h
  rw [List.mem_cons, not_or]
  split at h
  · rename_i hclose
    split at h
    · rename_i hnil
      rw [hclose, hnil]
      exact ⟨hneither.1, by simp⟩
    · cases h
  · split at h
    · rename_i hcomma
      rw [hcomma]
      exact ⟨hneither.2, hmore names h⟩
    · cases h

theorem readNames_no_quote {mode : ArgumentMode} {s : PyStr} {names : List PyStr}
    (h : readNames reserved mode s = some names) : charPoint '"' ∉ s := by
  induction s generalizing mode names with
  | nil => simp
  | cons c s ih =>
    cases mode with
    | before =>
      rw [readNames] at h
      rw [List.mem_cons, not_or]
      split at h
      · rename_i hspace
        rw [hspace]
        exact ⟨by decide, ih h⟩
      · split at h
        · rename_i hstart
          refine ⟨?_, ih h⟩
          rintro rfl
          exact not_starts (by decide) hstart
        · cases h
    | name read =>
      rw [readNames] at h
      split at h
      · rename_i hcontinues
        rw [List.mem_cons, not_or]
        refine ⟨?_, ih h⟩
        rintro rfl
        rw [not_continues (by decide)] at hcontinues
        cases hcontinues
      · split at h
        · cases h
        · obtain ⟨more, hmore, -⟩ := Option.map_eq_some_iff.mp h
          exact argumentsEnd_no_quote hmore fun names hnames ↦ ih hnames

theorem readArguments_no_quote {s : PyStr} {names : List PyStr}
    (h : readArguments reserved s = some names) : charPoint '"' ∉ s := by
  cases s with
  | nil => simp
  | cons c s => exact argumentsEnd_no_quote h fun names hnames ↦ readNames_no_quote hnames

theorem argumentsText_no_quote {names : List PyStr} (h : ∀ name ∈ names, IsName name) :
    charPoint '"' ∉ argumentsText names := by
  have hread := readArguments_names (fun _ ↦ false) h
  rw [if_pos fun _ _ ↦ rfl] at hread
  exact readArguments_no_quote hread

theorem IsName.not_surrogate {name : PyStr} (h : IsName name) :
    ∀ c ∈ name, ¬CodePoint.IsSurrogate c := by
  obtain ⟨c, more, rfl, hc, hmore⟩ := h
  intro d hd
  rcases List.mem_cons.mp hd with rfl | hd
  · rcases hc with hstart | hunderscore
    · exact Xid.not_surrogate _ (Xid.continues_of_start _ hstart)
    · rw [hunderscore]
      exact charPoint_not_surrogate '_'
  · exact Xid.not_surrogate d (hmore d hd)

end Arguments

end Reasoning
