import Mathlib.Data.List.Infix
import TandemAio.Reasoning.Percent

/-!
# HTTP/1.1 requests as bytes

The grammar of one request: a request line that is split at single spaces, header lines ended by
CRLF, and a body that is framed by Transfer-Encoding or, without one, by Content-Length.
-/

namespace Reasoning.Http

/-- A header field of a message. -/
structure Field where
  name : List UInt8
  value : List UInt8
deriving DecidableEq

structure Message where
  method : List UInt8
  target : List UInt8
  fields : List Field
  body : List UInt8
deriving DecidableEq

def lowerByte (b : UInt8) : UInt8 := if 65 ≤ b ∧ b ≤ 90 then b + 32 else b

/-- Field names are compared without case. -/
def Field.named (f : Field) (name : String) : Bool := f.name.map lowerByte == utf8 name

/-- An optional-whitespace byte, which is a space or a tab. -/
def ows (b : UInt8) : Bool := b == 32 || b == 9

def trim (value : List UInt8) : List UInt8 :=
  ((value.dropWhile ows).reverse.dropWhile ows).reverse

def tokenByte (b : UInt8) : Bool :=
  (48 ≤ b && b ≤ 57) || (65 ≤ b && b ≤ 90) || (97 ≤ b && b ≤ 122) ||
    (utf8 "!#$%&'*+-.^_|~").contains b || b == 96

/-! ## Reading -/

/-- The bytes up to the first CRLF, and those after it. -/
def takeLine : List UInt8 → Option (List UInt8 × List UInt8)
  | [] => none
  | [_] => none
  | b :: c :: rest =>
    if b = 13 ∧ c = 10 then some ([], rest)
    else (takeLine (c :: rest)).map fun (line, after) ↦ (b :: line, after)

/-- The lines up to the first empty one. -/
def headLines : Nat → List UInt8 → Option (List (List UInt8) × List UInt8)
  | 0, _ => none
  | fuel + 1, bytes =>
    match takeLine bytes with
    | none => none
    | some ([], rest) => some ([], rest)
    | some (line, rest) => (headLines fuel rest).map fun (lines, after) ↦ (line :: lines, after)

def requestLine (line : List UInt8) : Option (List UInt8 × List UInt8) :=
  match line.splitOn 32 with
  | [method, target, version] =>
    if method ≠ [] ∧ target ≠ [] ∧ version = utf8 "HTTP/1.1" then some (method, target) else none
  | _ => none

def fieldLine (line : List UInt8) : Option Field :=
  match line.dropWhile (· != 58) with
  | [] => none
  | _ :: value =>
    let name := line.takeWhile (· != 58)
    if name ≠ [] ∧ name.all tokenByte then some ⟨name, trim value⟩ else none

def fieldLines : List (List UInt8) → Option (List Field)
  | [] => some []
  | line :: lines =>
    match fieldLine line, fieldLines lines with
    | some field, some fields => some (field :: fields)
    | _, _ => none

def decimal (value : List UInt8) : Option Nat :=
  if value ≠ [] ∧ value.all (fun b ↦ 48 ≤ b && b ≤ 57) then
    some (Nat.ofDigitChars 10 (value.map latin1Char) 0)
  else none

def hexadecimal (value : List UInt8) : Option Nat :=
  if value ≠ [] ∧ value.all (fun b ↦ (hexDigit b).isSome) then
    some (value.foldl (fun n b ↦ 16 * n + (hexDigit b).getD 0) 0)
  else none

/-- A body in chunks, and the bytes after its trailer. -/
def dechunk : Nat → List UInt8 → Option (List UInt8 × List UInt8)
  | 0, _ => none
  | fuel + 1, bytes =>
    match takeLine bytes with
    | none => none
    | some (line, rest) =>
      -- a chunk extension follows a semicolon
      match hexadecimal (line.takeWhile (· != 59)) with
      | none => none
      | some 0 => (headLines rest.length rest).map fun (_, after) ↦ ([], after)
      | some size =>
        if (rest.drop size).take 2 = [13, 10] then
          (dechunk fuel (rest.drop (size + 2))).map fun (more, after) ↦
            (rest.take size ++ more, after)
        else none

/-- The body of a message with these fields, when nothing comes after it. -/
def readBody (fields : List Field) (rest : List UInt8) : Option (List UInt8) :=
  match fields.filter (·.named "transfer-encoding") with
  | [coding] =>
    if coding.value.map lowerByte = utf8 "chunked" then
      match dechunk rest.length rest with
      | some (body, []) => some body
      | _ => none
    else none
  | _ :: _ :: _ => none
  | [] =>
    match fields.filter (·.named "content-length") with
    | [] => if rest = [] then some [] else none
    | [length] => if decimal length.value = some rest.length then some rest else none
    | _ => none

/-- The bytes as exactly one request. -/
def parse (bytes : List UInt8) : Option Message :=
  match headLines bytes.length bytes with
  | some (first :: lines, rest) =>
    match requestLine first, fieldLines lines with
    | some (method, target), some fields =>
      (readBody fields rest).map fun body ↦ ⟨method, target, fields, body⟩
    | _, _ => none
  | _ => none

attribute [local simp] takeLine headLines fieldLines dechunk

/-! ## Writing -/

def Field.line (f : Field) : List UInt8 := f.name ++ 58 :: 32 :: f.value

def startLine (method target : List UInt8) : List UInt8 :=
  method ++ 32 :: (target ++ 32 :: utf8 "HTTP/1.1")

def writeLines (lines : List (List UInt8)) : List UInt8 := lines.flatMap (· ++ [13, 10])

def write (m : Message) : List UInt8 :=
  writeLines (startLine m.method m.target :: m.fields.map Field.line) ++ 13 :: 10 :: m.body

/-- A field that stands on one line, with nothing to trim. -/
structure Field.Plain (f : Field) : Prop where
  name : f.name ≠ [] ∧ ∀ b ∈ f.name, tokenByte b
  value : 13 ∉ f.value
  first : ∀ b, f.value.head? = some b → ¬ows b
  last : ∀ b, f.value.getLast? = some b → ¬ows b

/-- A method or target that stands between the spaces of the request line. -/
def Word (w : List UInt8) : Prop := w ≠ [] ∧ 32 ∉ w ∧ 13 ∉ w

/-! ## Lines -/

theorem takeLine_cons {b : UInt8} {bytes line rest : List UInt8}
    (h : takeLine bytes = some (line, rest)) (hb : b ≠ 13) :
    takeLine (b :: bytes) = some (b :: line, rest) := by
  cases bytes with
  | nil => cases h
  | cons c bytes =>
    unfold takeLine
    rw [if_neg (fun hcr ↦ hb hcr.1), h]
    rfl

/-- A line without a carriage return is read back. -/
theorem takeLine_append {line : List UInt8} (h : 13 ∉ line) (rest : List UInt8) :
    takeLine (line ++ 13 :: 10 :: rest) = some (line, rest) := by
  induction line with
  | nil =>
    rw [List.nil_append, takeLine, if_pos ⟨rfl, rfl⟩]
  | cons b line ih =>
    rw [List.mem_cons, not_or] at h
    rw [List.cons_append]
    exact takeLine_cons (ih h.2) (Ne.symm h.1)

theorem eq_of_takeLine {bytes line rest : List UInt8} (h : takeLine bytes = some (line, rest)) :
    bytes = line ++ 13 :: 10 :: rest := by
  induction bytes generalizing line with
  | nil => cases h
  | cons b bytes ih =>
    cases bytes with
    | nil => cases h
    | cons c tail =>
      unfold takeLine at h
      split at h
      · rename_i hcr
        cases h
        rw [hcr.1, hcr.2]
        rfl
      · obtain ⟨⟨line', after⟩, hline, heq⟩ := Option.map_eq_some_iff.mp h
        cases heq
        rw [ih hline]
        rfl

/-- The lines of a head are read back. -/
theorem headLines_writeLines {lines : List (List UInt8)} (h : ∀ line ∈ lines, line ≠ [] ∧ 13 ∉ line)
    (rest : List UInt8) {fuel : Nat} (hfuel : lines.length < fuel) :
    headLines fuel (writeLines lines ++ 13 :: 10 :: rest) = some (lines, rest) := by
  induction lines generalizing fuel with
  | nil =>
    obtain ⟨fuel, rfl⟩ := Nat.exists_eq_succ_of_ne_zero (Nat.ne_of_gt hfuel)
    have hline : takeLine (13 :: 10 :: rest) = some ([], rest) :=
      takeLine_append List.not_mem_nil rest
    show headLines (fuel + 1) (13 :: 10 :: rest) = some ([], rest)
    rw [headLines, hline]
  | cons line lines ih =>
    obtain ⟨fuel, rfl⟩ := Nat.exists_eq_succ_of_ne_zero (Nat.ne_of_gt (Nat.zero_lt_of_lt hfuel))
    obtain ⟨hne, hcr⟩ := h line List.mem_cons_self
    rw [List.length_cons] at hfuel
    have hrest := ih (fun l hl ↦ h l (List.mem_cons_of_mem _ hl))
      (show lines.length < fuel by omega)
    have hsplit : writeLines (line :: lines) ++ 13 :: 10 :: rest =
        line ++ 13 :: 10 :: (writeLines lines ++ 13 :: 10 :: rest) := by
      unfold writeLines
      simp
    rw [hsplit, headLines, takeLine_append hcr]
    cases line with
    | nil => exact absurd rfl hne
    | cons b line =>
      dsimp only
      rw [hrest]
      rfl

theorem headLines_cons {fuel : Nat} {bytes line rest : List UInt8} {lines : List (List UInt8)}
    (h : headLines fuel bytes = some (line :: lines, rest)) :
    ∃ after, bytes = line ++ 13 :: 10 :: after := by
  cases fuel with
  | zero => cases h
  | succ fuel =>
    unfold headLines at h
    split at h
    · cases h
    · cases h
    · rename_i line' after _ hline
      obtain ⟨pair, -, heq⟩ := Option.map_eq_some_iff.mp h
      cases heq
      exact ⟨after, eq_of_takeLine hline⟩

/-- What a head leaves is shorter than the bytes. -/
theorem headLines_length {fuel : Nat} {bytes rest : List UInt8} {lines : List (List UInt8)}
    (h : headLines fuel bytes = some (lines, rest)) : rest.length < bytes.length := by
  induction fuel generalizing bytes lines with
  | zero => cases h
  | succ fuel ih =>
    unfold headLines at h
    split at h
    · cases h
    · rename_i after hline
      cases h
      rw [eq_of_takeLine hline, List.length_append, List.length_cons, List.length_cons]
      omega
    · rename_i line after _ hline
      obtain ⟨⟨lines', rest'⟩, hrest, heq⟩ := Option.map_eq_some_iff.mp h
      cases heq
      have := ih hrest
      rw [eq_of_takeLine hline, List.length_append, List.length_cons, List.length_cons]
      omega

/-- Chunks take more bytes than they carry. -/
theorem dechunk_length {fuel : Nat} {bytes body rest : List UInt8}
    (h : dechunk fuel bytes = some (body, rest)) : body.length + rest.length < bytes.length := by
  induction fuel generalizing bytes body with
  | zero => cases h
  | succ fuel ih =>
    unfold dechunk at h
    split at h
    · cases h
    · rename_i line after hline
      have hlen := congrArg List.length (eq_of_takeLine hline)
      rw [List.length_append, List.length_cons, List.length_cons] at hlen
      split at h
      · cases h
      · obtain ⟨pair, hhead, heq⟩ := Option.map_eq_some_iff.mp h
        cases heq
        have := headLines_length hhead
        rw [List.length_nil]
        omega
      · rename_i size _ _
        split at h
        · obtain ⟨⟨more, after'⟩, hmore, heq⟩ := Option.map_eq_some_iff.mp h
          cases heq
          have hrest := ih hmore
          rw [List.length_drop] at hrest
          rw [List.length_append, List.length_take]
          omega
        · cases h

/-! ## The request line -/

theorem Word.splitOn {m t v : List UInt8} (hm : 32 ∉ m) (ht : 32 ∉ t) (hv : 32 ∉ v) :
    (m ++ 32 :: (t ++ 32 :: v)).splitOn 32 = [m, t, v] := by
  have hinter : m ++ 32 :: (t ++ 32 :: v) = [32].intercalate [m, t, v] := by
    simp [List.intercalate]
  rw [hinter, List.splitOn_intercalate 32 _ (by simp)]
  intro l hl
  simp only [List.mem_cons, List.not_mem_nil, or_false] at hl
  rcases hl with rfl | rfl | rfl
  · exact hm
  · exact ht
  · exact hv

/-- The bytes that separate the parts of a head do not stand in the version or in a token. -/
theorem separators : (32 : UInt8) ∉ utf8 "HTTP/1.1" ∧ (13 : UInt8) ∉ utf8 "HTTP/1.1" ∧
    tokenByte 58 = false ∧ tokenByte 13 = false := by
  decide +kernel

theorem requestLine_startLine {method target : List UInt8} (hm : Word method) (ht : Word target) :
    requestLine (startLine method target) = some (method, target) := by
  unfold requestLine startLine
  rw [Word.splitOn hm.2.1 ht.2.1 separators.1]
  dsimp only
  rw [if_pos ⟨hm.1, ht.1, rfl⟩]

theorem eq_of_requestLine {line method target : List UInt8}
    (h : requestLine line = some (method, target)) : line = startLine method target := by
  unfold requestLine at h
  split at h
  · rename_i m t v hsplit
    split at h
    · rename_i hparts
      cases h
      have hline : [(32 : UInt8)].intercalate (line.splitOn 32) = line :=
        List.intercalate_splitOn 32
      rw [hsplit, hparts.2.2] at hline
      rw [← hline]
      unfold startLine
      simp [List.intercalate]
    · cases h
  · cases h

/-- A request that parses starts with its own request line. -/
theorem startLine_of_parse {bytes : List UInt8} {m : Message} (h : parse bytes = some m) :
    ∃ after, bytes = startLine m.method m.target ++ 13 :: 10 :: after := by
  unfold parse at h
  split at h
  · rename_i first lines rest hhead
    split at h
    · rename_i method target fields hfirst hfields
      obtain ⟨body, -, heq⟩ := Option.map_eq_some_iff.mp h
      cases heq
      obtain ⟨after, hbytes⟩ := headLines_cons hhead
      rw [eq_of_requestLine hfirst] at hbytes
      exact ⟨after, hbytes⟩
    · cases h
  · cases h

/-- Two targets of one request line. A target without spaces is no shorter than the one that
stands there. -/
theorem startLine_target {method target written after rest : List UInt8} (hspace : 32 ∉ target)
    (hlen : written.length ≤ target.length)
    (h : startLine method target ++ after = startLine method written ++ rest) :
    target = written := by
  unfold startLine at h
  simp only [List.append_assoc, List.cons_append] at h
  have htail := (List.cons.inj (List.append_cancel_left h)).2
  clear h
  induction target generalizing written with
  | nil =>
    rw [List.length_nil] at hlen
    exact (List.length_eq_zero_iff.mp (by omega)).symm
  | cons b target ih =>
    rw [List.mem_cons, not_or] at hspace
    cases written with
    | nil =>
      rw [List.cons_append, List.nil_append] at htail
      exact absurd (List.cons.inj htail).1.symm hspace.1
    | cons c written =>
      rw [List.cons_append, List.cons_append] at htail
      obtain ⟨rfl, htail'⟩ := List.cons.inj htail
      have hlen' : written.length ≤ target.length := by simpa using hlen
      rw [ih hspace.2 hlen' htail']

/-! ## Fields -/

theorem dropWhile_eq_self {α : Type} {p : α → Bool} {l : List α}
    (h : ∀ b, l.head? = some b → ¬p b) : l.dropWhile p = l := by
  cases l with
  | nil => rfl
  | cons b l => rw [List.dropWhile_cons_of_neg (h b rfl)]

theorem Field.Plain.trim_eq {f : Field} (h : f.Plain) : trim (32 :: f.value) = f.value := by
  unfold trim
  rw [List.dropWhile_cons_of_pos (by decide), dropWhile_eq_self h.first,
    dropWhile_eq_self (fun b hb ↦ h.last b (by rwa [List.head?_reverse] at hb)),
    List.reverse_reverse]

theorem tokenByte_no_separator {name : List UInt8} (h : ∀ b ∈ name, tokenByte b) :
    ∀ b ∈ name, (b != 58) = true := by
  intro b hb
  by_contra hne
  have heq : b = 58 := by simpa using hne
  have htoken := h b hb
  rw [heq, separators.2.2.1] at htoken
  cases htoken

theorem Field.Plain.fieldLine_line {f : Field} (h : f.Plain) : fieldLine f.line = some f := by
  have hname := tokenByte_no_separator h.name.2
  have hdrop : f.line.dropWhile (· != 58) = 58 :: 32 :: f.value := by
    unfold Field.line
    rw [List.dropWhile_append_of_pos hname]
    rfl
  have htake : f.line.takeWhile (· != 58) = f.name := by
    unfold Field.line
    rw [List.takeWhile_append_of_pos hname]
    simp
  unfold fieldLine
  rw [hdrop, htake]
  dsimp only
  rw [if_pos ⟨h.name.1, List.all_eq_true.mpr h.name.2⟩, h.trim_eq]

theorem fieldLines_map {fields : List Field} (h : ∀ f ∈ fields, f.Plain) :
    fieldLines (fields.map Field.line) = some fields := by
  induction fields with
  | nil => rfl
  | cons f fields ih =>
    rw [List.map_cons, fieldLines, (h f List.mem_cons_self).fieldLine_line,
      ih fun g hg ↦ h g (List.mem_cons_of_mem f hg)]

theorem Field.Plain.line_ok {f : Field} (h : f.Plain) : f.line ≠ [] ∧ 13 ∉ f.line := by
  unfold Field.line
  constructor
  · simp
  · intro hcr
    rcases List.mem_append.mp hcr with hcr | hcr
    · have htoken := h.name.2 13 hcr
      rw [separators.2.2.2] at htoken
      cases htoken
    · simp only [List.mem_cons] at hcr
      rcases hcr with hcr | hcr | hcr
      · exact absurd hcr (by decide)
      · exact absurd hcr (by decide)
      · exact h.value hcr

theorem Word.startLine_ok {method target : List UInt8} (hm : Word method) (ht : Word target) :
    startLine method target ≠ [] ∧ 13 ∉ startLine method target := by
  unfold startLine
  constructor
  · simp
  · intro hcr
    rcases List.mem_append.mp hcr with hcr | hcr
    · exact hm.2.2 hcr
    · rcases List.mem_cons.mp hcr with hcr | hcr
      · exact absurd hcr (by decide)
      · rcases List.mem_append.mp hcr with hcr | hcr
        · exact ht.2.2 hcr
        · rcases List.mem_cons.mp hcr with hcr | hcr
          · exact absurd hcr (by decide)
          · exact separators.2.1 hcr

/-- A written message reads as itself, up to what its fields make of the body. -/
theorem parse_write {m : Message} (hmethod : Word m.method) (htarget : Word m.target)
    (hfields : ∀ f ∈ m.fields, f.Plain) :
    parse (write m) = (readBody m.fields m.body).map fun body ↦ { m with body := body } := by
  have hlines : ∀ line ∈ startLine m.method m.target :: m.fields.map Field.line,
      line ≠ [] ∧ 13 ∉ line := by
    intro line hline
    rcases List.mem_cons.mp hline with rfl | hline
    · exact hmethod.startLine_ok htarget
    · obtain ⟨f, hf, rfl⟩ := List.mem_map.mp hline
      exact (hfields f hf).line_ok
  have hlength : ∀ lines : List (List UInt8), lines.length ≤ (writeLines lines).length := by
    intro lines
    unfold writeLines
    induction lines with
    | nil => exact Nat.le_refl _
    | cons line lines ih =>
      rw [List.flatMap_cons, List.length_append, List.length_append, List.length_cons]
      simp only [List.length_cons, List.length_nil]
      omega
  have hfuel : (startLine m.method m.target :: m.fields.map Field.line).length <
      (write m).length := by
    have := hlength (startLine m.method m.target :: m.fields.map Field.line)
    unfold write
    rw [List.length_append, List.length_cons (a := 13)]
    omega
  have hhead := headLines_writeLines hlines m.body hfuel
  unfold parse
  change headLines (write m).length (write m) = _ at hhead
  rw [hhead]
  dsimp only
  rw [requestLine_startLine hmethod htarget, fieldLines_map hfields]

/-! ## Bodies -/

/-- The digits of a number as bytes. -/
theorem utf8_repr (n : Nat) : ∃ digits : List UInt8, utf8 (toString n) = digits ∧ digits ≠ [] ∧
    (∀ b ∈ digits, 48 ≤ b ∧ b ≤ 57) ∧ digits.map latin1Char = Nat.toDigits 10 n := by
  have hdigits : ∀ c ∈ Nat.toDigits 10 n, ∃ b : UInt8, 48 ≤ b ∧ b ≤ 57 ∧ latin1Char b = c := by
    intro c hc
    have hdigit := Nat.isDigit_of_mem_toDigits (by decide) (by decide) hc
    have hrange : 48 ≤ c.toNat ∧ c.toNat ≤ 57 := by
      simpa [Char.isDigit, Char.le_def, UInt32.le_iff_toNat_le] using hdigit
    have hbyte : (UInt8.ofNat c.toNat).toNat = c.toNat := by
      rw [UInt8.toNat_ofNat']
      omega
    refine ⟨UInt8.ofNat c.toNat, ?_, ?_, ?_⟩
    · rw [UInt8.le_iff_toNat_le, hbyte]
      exact hrange.1
    · rw [UInt8.le_iff_toNat_le, hbyte]
      exact hrange.2
    · unfold latin1Char
      rw [hbyte, Char.ofNat_toNat]
  have hbytes : ∀ cs : List Char, (∀ c ∈ cs, ∃ b : UInt8, 48 ≤ b ∧ b ≤ 57 ∧ latin1Char b = c) →
      ∃ digits : List UInt8, (∀ b ∈ digits, 48 ≤ b ∧ b ≤ 57) ∧ digits.map latin1Char = cs := by
    intro cs hcs
    induction cs with
    | nil => exact ⟨[], fun b hb ↦ absurd hb List.not_mem_nil, rfl⟩
    | cons c cs ih =>
      obtain ⟨b, hlo, hhi, rfl⟩ := hcs c List.mem_cons_self
      obtain ⟨digits, hall, rfl⟩ := ih fun d hd ↦ hcs d (List.mem_cons_of_mem _ hd)
      refine ⟨b :: digits, fun x hx ↦ ?_, rfl⟩
      rcases List.mem_cons.mp hx with rfl | hx
      · exact ⟨hlo, hhi⟩
      · exact hall x hx
  obtain ⟨digits, hall, hmap⟩ := hbytes _ hdigits
  have hascii : Ascii digits := fun b hb ↦
    UInt8.lt_of_le_of_lt (hall b hb).2 (by decide)
  refine ⟨digits, ?_, ?_, hall, hmap⟩
  · have hlist : (toString n).toList = digits.map latin1Char := by
      rw [hmap]
      simp [toString, Nat.repr]
    unfold utf8
    rw [hlist, utf8Chars_latin1_of_ascii hascii]
  · rintro rfl
    exact Nat.toDigits_ne_nil hmap.symm

theorem decimal_repr (n : Nat) : decimal (utf8 (toString n)) = some n := by
  obtain ⟨digits, heq, hne, hall, hmap⟩ := utf8_repr n
  have hdigits : digits.all (fun b ↦ 48 ≤ b && b ≤ 57) = true := by
    simpa using hall
  unfold decimal
  rw [heq, if_pos ⟨hne, hdigits⟩, hmap, Nat.ofDigitChars_ten_toDigits]

/-- Without Transfer-Encoding, the length says what the body is. -/
theorem readBody_length {fields : List Field} {length : Field} {body : List UInt8}
    (hcoding : ∀ f ∈ fields, ¬f.named "transfer-encoding")
    (hlength : fields.filter (·.named "content-length") = [length])
    (hvalue : decimal length.value = some body.length) : readBody fields body = some body := by
  have hnone : fields.filter (·.named "transfer-encoding") = [] :=
    List.filter_eq_nil_iff.mpr hcoding
  unfold readBody
  rw [hnone, hlength]
  dsimp only
  rw [if_pos hvalue]

/-- With Transfer-Encoding, what is read is shorter than what is there. -/
theorem readBody_chunked {fields : List Field} {f : Field} (hf : f ∈ fields)
    (hcoding : f.named "transfer-encoding") {rest body : List UInt8}
    (h : readBody fields rest = some body) : body.length < rest.length := by
  have hmem : f ∈ fields.filter (·.named "transfer-encoding") := List.mem_filter.mpr ⟨hf, hcoding⟩
  unfold readBody at h
  split at h
  · split at h
    · split at h
      · rename_i hchunks
        cases h
        simpa using dechunk_length hchunks
      · cases h
    · cases h
  · cases h
  · rename_i hnil
    rw [hnil] at hmem
    exact absurd hmem List.not_mem_nil

end Reasoning.Http
