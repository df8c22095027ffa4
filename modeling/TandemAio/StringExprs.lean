import TandemAio.Reasoning.RustText
import TandemAio.RustRuns

/-!
# `tandem/builder.py`: strings

The Rust expressions of string constants and f-strings, and which of them have the value of the
Python expression.
-/

open Reasoning

namespace TandemAio

section Model

variable [Xid]

/-- A Python identifier. -/
abbrev PyName := {name : PyStr // IsName name}

/-- A part of an f-string: text, or a hole with a name in it. -/
inductive StrPart
  | constant (value : PyStr)
  | formattedValue (name : PyName)

/-- A string constant, or an f-string without conversions and format specs. -/
inductive StrExpr
  | constant (value : PyStr)
  | joinedStr (values : List StrPart)

/-! ## Python -/

/-- The value of a part, with the strings that the names stand for. -/
def StrPart.eval (env : PyStr → PyStr) : StrPart → PyStr
  | .constant value => value
  | .formattedValue name => env name.val

def StrExpr.eval (env : PyStr → PyStr) : StrExpr → PyStr
  | .constant value => value
  | .joinedStr values => values.flatMap (StrPart.eval env)

/-! ## The transpiler -/

/-- `s.replace(old, new)`, of one character. -/
def replaceChar (old : Char) (new : String) (s : PyStr) : PyStr :=
  s.flatMap fun c ↦ if c = charPoint old then points new else [c]

/-- `_const`, of a string. -/
def constStr (value : PyStr) : PyStr :=
  let escaped := replaceChar '"' "\\\"" (replaceChar '\\' "\\\\" value)
  points "String::from(\"" ++ escaped ++ points "\")"

/-- The part of the format string for a part of an f-string. -/
def StrPart.fmt : StrPart → PyStr
  | .constant value => replaceChar '\x7d' "\x7d\x7d" (replaceChar '\x7b' "\x7b\x7b" value)
  | .formattedValue _ => points "\x7b\x7d"

/-- The name in a hole. -/
def StrPart.arg : StrPart → Option PyName
  | .constant _ => none
  | .formattedValue name => some name

/-- The names in the holes of an f-string. -/
def holeNames (values : List StrPart) : List PyStr :=
  (values.filterMap StrPart.arg).map Subtype.val

/-- `_fstring` -/
def fstring (values : List StrPart) : PyStr :=
  let fmtStr := values.flatMap StrPart.fmt
  let args := holeNames values
  if args ≠ [] then
    points "format!(\"" ++ fmtStr ++ points "\", " ++ (points ", ").intercalate args ++ points ")"
  else
    points "String::from(\"" ++ fmtStr ++ points "\")"

/-- `_expr`, of a string expression. -/
def StrExpr.rust : StrExpr → PyStr
  | .constant value => constStr value
  | .joinedStr values => fstring values

/-! ## Rust -/

/-- The words that are no names of variables. -/
def reservedPoints (name : PyStr) : Bool := rustReserved.any fun word ↦ points word = name

/-- The text in which the two languages agree. -/
structure CommonText (s : PyStr) : Prop where
  no_cr : charPoint '\r' ∉ s
  no_surrogate : ∀ c ∈ s, ¬CodePoint.IsSurrogate c

/-- The text that a format string may hold: nothing in it is escaped. -/
structure FormatText (s : PyStr) : Prop extends CommonText s where
  no_quote : charPoint '"' ∉ s
  no_backslash : charPoint '\\' ∉ s

/-- The expressions that keep their values.  An f-string without holes is no format string, but its
braces are doubled all the same. -/
def StrExpr.Survives : StrExpr → Prop
  | .constant value => CommonText value
  | .joinedStr values =>
    (∀ value, .constant value ∈ values → FormatText value ∧
      ((∃ c ∈ value, IsBrace c) → ∃ name, .formattedValue name ∈ values)) ∧
    ∀ name, .formattedValue name ∈ values → reservedPoints name.val = false

end Model

/-! ## Replacements -/

section Replacements

theorem replaceChar_braces (s : PyStr) :
    replaceChar '\x7d' "\x7d\x7d" (replaceChar '\x7b' "\x7b\x7b" s) = doubleBraces s := by
  unfold replaceChar doubleBraces
  rw [List.flatMap_assoc]
  apply List.flatMap_congr
  intro c _
  by_cases hopen : c = charPoint '\x7b'
  · rw [hopen]
    decide
  · by_cases hclose : c = charPoint '\x7d'
    · rw [hclose]
      decide
    · have hbrace : ¬IsBrace c := fun h ↦ h.elim hopen hclose
      rw [if_neg hopen, if_neg hbrace, List.flatMap_singleton, if_neg hclose]

/-- The escape of one character in a constant. -/
def escapeChar (c : CodePoint) : PyStr :=
  if c = charPoint '\\' ∨ c = charPoint '"' then [charPoint '\\', c] else [c]

theorem replaceChar_escape (s : PyStr) :
    replaceChar '"' "\\\"" (replaceChar '\\' "\\\\" s) = s.flatMap escapeChar := by
  unfold replaceChar escapeChar
  rw [List.flatMap_assoc]
  apply List.flatMap_congr
  intro c _
  by_cases hescape : c = charPoint '\\'
  · rw [hescape]
    decide
  · by_cases hquote : c = charPoint '"'
    · rw [hquote]
      decide
    · have hplain : ¬(c = charPoint '\\' ∨ c = charPoint '"') := fun h ↦ h.elim hescape hquote
      rw [if_neg hescape, if_neg hplain, List.flatMap_singleton, if_neg hquote]

theorem mem_doubleBraces {c : CodePoint} {s : PyStr} : c ∈ doubleBraces s ↔ c ∈ s := by
  unfold doubleBraces
  rw [List.mem_flatMap]
  constructor
  · rintro ⟨d, hd, hc⟩
    split at hc
    · have heq : c = d := by simpa using hc
      rw [heq]
      exact hd
    · rw [List.mem_singleton.mp hc]
      exact hd
  · intro hc
    refine ⟨c, hc, ?_⟩
    split
    · exact List.mem_cons_self
    · exact List.mem_cons_self

theorem length_doubleBraces (s : PyStr) : s.length ≤ (doubleBraces s).length := by
  induction s with
  | nil => exact Nat.le_refl _
  | cons c s ih =>
    unfold doubleBraces at ih ⊢
    rw [List.flatMap_cons, List.length_append, List.length_cons]
    split
    · rw [List.length_cons, List.length_singleton]
      omega
    · rw [List.length_singleton]
      omega

theorem doubleBraces_eq_self {s : PyStr} : doubleBraces s = s ↔ ∀ c ∈ s, ¬IsBrace c := by
  induction s with
  | nil => simp [doubleBraces]
  | cons c s ih =>
    have hcons : doubleBraces (c :: s) =
        (if IsBrace c then [c, c] else [c]) ++ doubleBraces s := by
      unfold doubleBraces
      rw [List.flatMap_cons]
    rw [hcons, List.forall_mem_cons]
    by_cases hc : IsBrace c
    · rw [if_pos hc]
      constructor
      · intro h
        have hlen := congrArg List.length h
        have hle := length_doubleBraces s
        simp only [List.length_append, List.length_cons, List.length_nil] at hlen
        omega
      · intro h
        exact absurd hc h.1
    · rw [if_neg hc, List.singleton_append, List.cons.injEq]
      simp [hc, ih]

/-- A doubled brace weighs as much as a brace if braces weigh nothing. -/
theorem weight_doubleBraces (s : PyStr) : weight 0 1 (doubleBraces s) = weight 0 1 s := by
  induction s with
  | nil => rfl
  | cons c s ih =>
    unfold doubleBraces at ih ⊢
    rw [List.flatMap_cons, weight_append, ih, weight_cons]
    by_cases hc : IsBrace c
    · rw [if_pos hc, weight_cons, weight_cons, weight_nil, charWeight, if_pos hc]
    · rw [if_neg hc, weight_cons, weight_nil]
      omega

end Replacements

/-! ## Constants -/

section Constants

/-- Escaped text is read back as it was. -/
theorem readLiteral_escaped {s : PyStr} (h : charPoint '\r' ∉ s) (rest : PyStr) :
    readLiteral (.text false) (s.flatMap escapeChar ++ rest) =
      (readLiteral (.text false) rest).map fun (value, after) ↦ (s ++ value, after) := by
  induction s with
  | nil => simp
  | cons c s ih =>
    rw [List.mem_cons, not_or] at h
    rw [List.flatMap_cons, List.append_assoc]
    have hmap : (readLiteral (.text false) rest).map
        (fun (value, after) ↦ (c :: s ++ value, after)) = push c
          ((readLiteral (.text false) rest).map fun (value, after) ↦ (s ++ value, after)) := by
      unfold push
      rw [Option.map_map]
      rfl
    rw [hmap, ← ih h.2, escapeChar]
    by_cases hspecial : c = charPoint '\\' ∨ c = charPoint '"'
    · have hescape : simpleEscape c = some c ∧ c ≠ charPoint 'x' ∧ c ≠ charPoint 'u' ∧
          c ≠ charPoint '\n' ∧ c ≠ charPoint '\r' := by
        rcases hspecial with rfl | rfl
        · decide
        · decide
      obtain ⟨hsimple, hx, hu, hfeed, hreturn⟩ := hescape
      rw [if_pos hspecial]
      show readLiteral (.text false) (charPoint '\\' :: c :: _) = _
      rw [readLiteral, if_neg (by simp), if_neg (by decide), if_pos rfl, readLiteral, if_neg hx,
        if_neg hu, if_neg hfeed, if_neg hreturn, hsimple]
      rfl
    · rw [not_or] at hspecial
      rw [if_neg (not_or.mpr hspecial)]
      show readLiteral (.text false) (c :: _) = _
      rw [readLiteral, if_neg (by simp), if_neg hspecial.2, if_neg hspecial.1,
        if_neg (Ne.symm h.1)]
      rfl

/-- What is read of a text with a carriage return is another text. -/
theorem readLiteral_cr {s rest value after : PyStr} (hcr : charPoint '\r' ∈ s)
    (h : readLiteral (.text false) (s.flatMap escapeChar ++ rest) = some (value, after)) :
    value ≠ s := by
  obtain ⟨before, later, rfl, hbefore⟩ := List.eq_append_cons_of_mem hcr
  have hreturn : escapeChar (charPoint '\r') = [charPoint '\r'] := by decide
  rw [List.flatMap_append, List.append_assoc, readLiteral_escaped hbefore, List.flatMap_cons,
    hreturn] at h
  obtain ⟨⟨value', after'⟩, hread, hvalue⟩ := Option.map_eq_some_iff.mp h
  have hpair : before ++ value' = value := congrArg Prod.fst hvalue
  rw [← hpair]
  intro heq
  have htail := List.append_cancel_left heq
  -- a line feed is read of it
  have hfeed : readLiteral (.text false) (charPoint '\r' :: (later.flatMap escapeChar ++ rest)) =
      readLiteral .cr (later.flatMap escapeChar ++ rest) := by
    rw [readLiteral, if_neg (by simp), if_neg (by decide), if_neg (by decide), if_pos rfl]
  have hread' : readLiteral .cr (later.flatMap escapeChar ++ rest) = some (value', after') :=
    hfeed.symm.trans hread
  cases hinput : later.flatMap escapeChar ++ rest with
  | nil =>
    rw [hinput] at hread'
    cases hread'
  | cons c input =>
    rw [hinput, readLiteral] at hread'
    split at hread'
    · rename_i hc
      obtain ⟨value'', -, hvalue'⟩ := push_eq_some.mp hread'
      rw [htail] at hvalue'
      have hhead := (List.cons.inj hvalue').1
      rw [hc] at hhead
      exact absurd hhead (by decide)
    · cases hread'

theorem stripStart_append (start rest : PyStr) : stripStart start (start ++ rest) = some rest := by
  unfold stripStart
  rw [if_pos (List.prefix_append _ _), List.drop_left]

variable [Xid]

/-- The value of a `String::from` expression. -/
theorem stringExpr_from (env : PyStr → PyStr) {text : PyStr}
    (h : ∀ c ∈ text, ¬CodePoint.IsSurrogate c) :
    stringExpr reservedPoints env (points "String::from(\"" ++ text ++ points "\")") =
      (readLiteral (.text false) (text ++ points "\")")).bind fun (value, rest) ↦
        if rest = points ")" then some value else none := by
  have hno : ¬∃ c ∈ points "String::from(\"" ++ text ++ points "\")",
      CodePoint.IsSurrogate c := by
    rintro ⟨c, hc, hsurrogate⟩
    rcases List.mem_append.mp hc with hc | hc
    · rcases List.mem_append.mp hc with hc | hc
      · exact points_not_surrogate _ c hc hsurrogate
      · exact h c hc hsurrogate
    · exact points_not_surrogate _ c hc hsurrogate
  unfold stringExpr
  rw [if_neg hno, List.append_assoc, stripStart_append]
  rfl

/-- A constant keeps its value exactly when it is common text. -/
theorem constStr_iff (env : PyStr → PyStr) (value : PyStr) :
    stringExpr reservedPoints env (constStr value) = some value ↔ CommonText value := by
  unfold constStr
  dsimp only
  rw [replaceChar_escape]
  have hmem : ∀ c, c ∈ value → c ∈ value.flatMap escapeChar := by
    intro c hc
    refine List.mem_flatMap.mpr ⟨c, hc, ?_⟩
    unfold escapeChar
    split
    · exact List.mem_cons_of_mem _ List.mem_cons_self
    · exact List.mem_cons_self
  by_cases hsurrogate : ∀ c ∈ value, ¬CodePoint.IsSurrogate c
  · have hescaped : ∀ c ∈ value.flatMap escapeChar, ¬CodePoint.IsSurrogate c := by
      intro c hc
      obtain ⟨d, hd, hc⟩ := List.mem_flatMap.mp hc
      have hbackslash : ¬CodePoint.IsSurrogate (charPoint '\\') := by decide
      unfold escapeChar at hc
      split at hc
      · rcases List.mem_cons.mp hc with rfl | hc
        · exact hbackslash
        · rw [List.mem_singleton.mp hc]
          exact hsurrogate d hd
      · rw [List.mem_singleton.mp hc]
        exact hsurrogate d hd
    rw [stringExpr_from env hescaped]
    by_cases hcr : charPoint '\r' ∈ value
    · refine iff_of_false ?_ fun h ↦ h.no_cr hcr
      intro h
      obtain ⟨⟨value', after⟩, hread, hvalue⟩ := Option.bind_eq_some_iff.mp h
      dsimp only at hvalue
      split at hvalue
      · exact readLiteral_cr hcr hread (Option.some.inj hvalue)
      · cases hvalue
    · refine iff_of_true ?_ ⟨hcr, hsurrogate⟩
      have hend : readLiteral (.text false) (points "\")") = some ([], points ")") := by decide
      rw [readLiteral_escaped hcr, hend]
      simp
  · refine iff_of_false ?_ fun h ↦ hsurrogate h.no_surrogate
    push Not at hsurrogate
    obtain ⟨c, hc, hsurrogate⟩ := hsurrogate
    have hsource : ∃ c ∈ points "String::from(\"" ++ value.flatMap escapeChar ++ points "\")",
        CodePoint.IsSurrogate c :=
      ⟨c, List.mem_append_left _ (List.mem_append_right _ (hmem c hc)), hsurrogate⟩
    unfold stringExpr
    rw [if_pos hsource]
    simp

end Constants

/-! ## F-strings -/

section FStrings

variable [Xid] {values : List StrPart}

theorem mem_holeNames {name : PyStr} :
    name ∈ holeNames values ↔ ∃ h : IsName name, .formattedValue ⟨name, h⟩ ∈ values := by
  unfold holeNames
  rw [List.mem_map]
  constructor
  · rintro ⟨hole, hmem, rfl⟩
    obtain ⟨part, hpart, harg⟩ := List.mem_filterMap.mp hmem
    cases part with
    | constant value => cases harg
    | formattedValue name =>
      cases harg
      exact ⟨hole.property, hpart⟩
  · rintro ⟨h, hmem⟩
    exact ⟨⟨name, h⟩, List.mem_filterMap.mpr ⟨_, hmem, rfl⟩, rfl⟩

theorem holeNames_isName : ∀ name ∈ holeNames values, IsName name := by
  intro name hname
  obtain ⟨h, -⟩ := mem_holeNames.mp hname
  exact h

/-- The format string of an f-string. -/
def fmtText (values : List StrPart) : PyStr := values.flatMap StrPart.fmt

theorem StrPart.fmt_constant (value : PyStr) :
    (StrPart.constant value).fmt = doubleBraces value := replaceChar_braces value

theorem mem_fmtText {c : CodePoint} :
    c ∈ fmtText values ↔ (∃ value, .constant value ∈ values ∧ c ∈ value) ∨
      (c ∈ points "\x7b\x7d" ∧ ∃ name, .formattedValue name ∈ values) := by
  unfold fmtText
  rw [List.mem_flatMap]
  constructor
  · rintro ⟨part, hpart, hc⟩
    cases part with
    | constant value =>
      rw [StrPart.fmt_constant, mem_doubleBraces] at hc
      exact Or.inl ⟨value, hpart, hc⟩
    | formattedValue name => exact Or.inr ⟨hc, name, hpart⟩
  · rintro (⟨value, hpart, hc⟩ | ⟨hc, name, hpart⟩)
    · refine ⟨_, hpart, ?_⟩
      rw [StrPart.fmt_constant, mem_doubleBraces]
      exact hc
    · exact ⟨_, hpart, hc⟩

/-- The format string makes the Python text of its arguments. -/
theorem formatWith_fmtText (env : PyStr → PyStr) (values : List StrPart) :
    formatWith .text (fmtText values) ((holeNames values).map env) =
      some (values.flatMap (StrPart.eval env)) := by
  induction values with
  | nil => rfl
  | cons part values ih =>
    unfold fmtText at ih ⊢
    rw [List.flatMap_cons, List.flatMap_cons]
    cases part with
    | constant value =>
      have hnames : holeNames (.constant value :: values) = holeNames values := rfl
      rw [hnames, StrPart.fmt_constant, formatWith_doubleBraces, ih]
      rfl
    | formattedValue name =>
      have hnames : holeNames (.formattedValue name :: values) =
          name.val :: holeNames values := rfl
      rw [hnames, List.map_cons]
      show formatWith .text (points "\x7b\x7d" ++ _) _ = _
      rw [formatWith_hole, ih]
      rfl

/-- The text of the constant parts and of the holes has surrogates in the constant parts only. -/
theorem fmtText_surrogate :
    (∀ c ∈ fmtText values, ¬CodePoint.IsSurrogate c) ↔
      ∀ value, .constant value ∈ values → ∀ c ∈ value, ¬CodePoint.IsSurrogate c := by
  constructor
  · intro h value hvalue c hc
    exact h c (mem_fmtText.mpr (Or.inl ⟨value, hvalue, hc⟩))
  · intro h c hc
    rcases mem_fmtText.mp hc with ⟨value, hvalue, hc⟩ | ⟨hc, -⟩
    · exact h value hvalue c hc
    · exact points_not_surrogate _ c hc

theorem fmtText_plain :
    (∀ c ∈ fmtText values, ¬IsSpecial c) ↔
      ∀ value, .constant value ∈ values → ∀ c ∈ value, ¬IsSpecial c := by
  constructor
  · intro h value hvalue c hc
    exact h c (mem_fmtText.mpr (Or.inl ⟨value, hvalue, hc⟩))
  · intro h c hc
    have hopen : ¬IsSpecial (charPoint '\x7b') := by decide
    have hclose : ¬IsSpecial (charPoint '\x7d') := by decide
    rcases mem_fmtText.mp hc with ⟨value, hvalue, hc⟩ | ⟨hc, -⟩
    · exact h value hvalue c hc
    · have hbraces : points "\x7b\x7d" = [charPoint '\x7b', charPoint '\x7d'] := rfl
      rw [hbraces, List.mem_pair] at hc
      rcases hc with rfl | rfl
      · exact hopen
      · exact hclose

omit [Xid] in
theorem formatText_iff {value : PyStr} :
    FormatText value ↔
      (∀ c ∈ value, ¬IsSpecial c) ∧ ∀ c ∈ value, ¬CodePoint.IsSurrogate c := by
  constructor
  · intro h
    refine ⟨?_, h.no_surrogate⟩
    rintro c hc (rfl | rfl | rfl)
    · exact h.no_quote hc
    · exact h.no_backslash hc
    · exact h.no_cr hc
  · rintro ⟨hplain, hsurrogate⟩
    exact ⟨⟨fun hc ↦ hplain _ hc (Or.inr (Or.inr rfl)), hsurrogate⟩,
      fun hc ↦ hplain _ hc (Or.inl rfl), fun hc ↦ hplain _ hc (Or.inr (Or.inl rfl))⟩

/-- Without holes the f-string is a literal of its doubled text. -/
theorem fstring_of_no_holes (h : holeNames values = []) :
    fstring values = points "String::from(\"" ++ fmtText values ++ points "\")" := by
  unfold fstring
  dsimp only
  rw [if_neg (not_not.mpr h)]
  rfl

theorem fstring_of_holes (h : holeNames values ≠ []) :
    fstring values = points "format!(\"" ++
      (fmtText values ++ charPoint '"' :: argumentsText (holeNames values)) := by
  have hjoin : ∀ names : List PyStr, names ≠ [] →
      points ", " ++ (points ", ").intercalate names =
        names.flatMap fun name ↦ points ", " ++ name := by
    intro names hne
    induction names with
    | nil => exact absurd rfl hne
    | cons name names ih =>
      cases names with
      | nil => simp
      | cons next names =>
        rw [List.intercalate_cons_cons, List.flatMap_cons, ← ih (by simp)]
        simp
  unfold fstring
  dsimp only
  rw [if_pos h]
  unfold argumentsText
  rw [← hjoin _ h]
  have hquote : points "\", " = charPoint '"' :: points ", " := rfl
  rw [hquote]
  unfold fmtText
  simp

theorem no_holes_text (env : PyStr → PyStr) (h : holeNames values = []) :
    fmtText values = doubleBraces (values.flatMap (StrPart.eval env)) := by
  unfold fmtText doubleBraces
  rw [List.flatMap_assoc]
  apply List.flatMap_congr
  intro part hpart
  cases part with
  | constant value => exact StrPart.fmt_constant value
  | formattedValue name =>
    have hname := mem_holeNames.mpr ⟨name.property, hpart⟩
    rw [h] at hname
    cases hname

/-- The value of a `format!` expression. -/
theorem stringExpr_format (env : PyStr → PyStr) {text : PyStr} {names : List PyStr}
    (h : ∀ c ∈ text, ¬CodePoint.IsSurrogate c) (hnames : ∀ name ∈ names, IsName name) :
    stringExpr reservedPoints env
        (points "format!(\"" ++ (text ++ charPoint '"' :: argumentsText names)) =
      (readLiteral (.text false) (text ++ charPoint '"' :: argumentsText names)).bind
        fun (value, rest) ↦ (readArguments reservedPoints rest).bind fun names ↦
          formatWith .text value (names.map env) := by
  have hargs : ∀ c ∈ argumentsText names, ¬CodePoint.IsSurrogate c := by
    intro c hc
    rcases List.mem_append.mp hc with hc | hc
    · obtain ⟨name, hname, hc⟩ := List.mem_flatMap.mp hc
      rcases List.mem_append.mp hc with hc | hc
      · exact points_not_surrogate _ c hc
      · exact (hnames name hname).not_surrogate c hc
    · exact points_not_surrogate _ c hc
  have hno : ¬∃ c ∈ points "format!(\"" ++ (text ++ charPoint '"' :: argumentsText names),
      CodePoint.IsSurrogate c := by
    rintro ⟨c, hc, hsurrogate⟩
    rcases List.mem_append.mp hc with hc | hc
    · exact points_not_surrogate _ c hc hsurrogate
    · rcases List.mem_append.mp hc with hc | hc
      · exact h c hc hsurrogate
      · rcases List.mem_cons.mp hc with rfl | hc
        · exact charPoint_not_surrogate '"' hsurrogate
        · exact hargs c hc hsurrogate
  have hfrom : stripStart (points "String::from(\"")
      (points "format!(\"" ++ (text ++ charPoint '"' :: argumentsText names)) = none := by
    unfold stripStart
    rw [if_neg]
    intro hprefix
    have hhead : charPoint 'S' = charPoint 'f' := (List.cons_prefix_cons.mp hprefix).1
    exact absurd hhead (by decide)
  unfold stringExpr
  rw [if_neg hno, hfrom, stripStart_append]
  rfl

/-- A text with a surrogate is no source. -/
theorem stringExpr_surrogate (env : PyStr → PyStr) {source : PyStr}
    (h : ∃ c ∈ source, CodePoint.IsSurrogate c) :
    stringExpr reservedPoints env source = none := by
  unfold stringExpr
  rw [if_pos h]

theorem fstring_surrogate (env : PyStr → PyStr)
    (h : ¬∀ c ∈ fmtText values, ¬CodePoint.IsSurrogate c) :
    stringExpr reservedPoints env (fstring values) = none := by
  push Not at h
  obtain ⟨c, hc, hsurrogate⟩ := h
  apply stringExpr_surrogate
  refine ⟨c, ?_, hsurrogate⟩
  by_cases hnames : holeNames values = []
  · rw [fstring_of_no_holes hnames]
    exact List.mem_append_left _ (List.mem_append_right _ hc)
  · rw [fstring_of_holes hnames]
    exact List.mem_append_right _ (List.mem_append_left _ hc)

/-- An f-string without holes keeps its value when nothing in it is escaped or doubled. -/
theorem fstring_no_holes_iff (env : PyStr → PyStr) (hnames : holeNames values = [])
    (hsurrogate : ∀ c ∈ fmtText values, ¬CodePoint.IsSurrogate c) :
    stringExpr reservedPoints env (fstring values) = some (values.flatMap (StrPart.eval env)) ↔
      (∀ c ∈ fmtText values, ¬IsSpecial c) ∧ ∀ c ∈ fmtText values, ¬IsBrace c := by
  have hdouble := no_holes_text env hnames
  have hend : points "\")" = charPoint '"' :: points ")" := rfl
  have hclose : charPoint '"' ∉ points ")" := by decide
  rw [fstring_of_no_holes hnames, stringExpr_from env hsurrogate, hend]
  constructor
  · intro h
    obtain ⟨⟨value, rest⟩, hread, hvalue⟩ := Option.bind_eq_some_iff.mp h
    dsimp only at hvalue
    split at hvalue
    · rename_i hrest
      obtain ⟨s, hin, hbound⟩ :=
        readLiteral_bound (show 0 ≤ 1 by decide) (by decide) _ hread
      rw [hrest] at hin
      obtain ⟨rfl, -⟩ := append_quote_inj hclose hclose hin
      rw [Option.some.inj hvalue] at hbound
      rcases hbound with ⟨hself, hplain⟩ | hlt
      · refine ⟨hplain, ?_⟩
        rw [← hself]
        apply doubleBraces_eq_self.mp
        rw [← hdouble, hself]
      · -- braces weigh nothing, so that doubling them changes no weight
        rw [hdouble, weight_doubleBraces] at hlt
        exact absurd hlt (Nat.lt_irrefl _)
    · cases hvalue
  · rintro ⟨hplain, hbrace⟩
    have hself : fmtText values = values.flatMap (StrPart.eval env) := by
      rw [hdouble]
      apply doubleBraces_eq_self.mpr
      intro c hc
      exact hbrace c (by rw [hdouble]; exact mem_doubleBraces.mpr hc)
    rw [readLiteral_plain hplain, ← hself]
    rfl

/-- An f-string with holes keeps its value when nothing in it is escaped and its names are names in
Rust. -/
theorem fstring_holes_iff (env : PyStr → PyStr) (hnames : holeNames values ≠ [])
    (hsurrogate : ∀ c ∈ fmtText values, ¬CodePoint.IsSurrogate c) :
    stringExpr reservedPoints env (fstring values) = some (values.flatMap (StrPart.eval env)) ↔
      (∀ c ∈ fmtText values, ¬IsSpecial c) ∧
        ∀ name ∈ holeNames values, reservedPoints name = false := by
  have hformat := formatWith_fmtText env values
  rw [fstring_of_holes hnames, stringExpr_format env hsurrogate holeNames_isName]
  constructor
  · intro h
    obtain ⟨⟨value, rest⟩, hread, h⟩ := Option.bind_eq_some_iff.mp h
    obtain ⟨names, hargs, hvalue⟩ := Option.bind_eq_some_iff.mp h
    obtain ⟨s, hin, hbound⟩ :=
      readLiteral_bound (show 1 ≤ 2 by decide) (by decide) _ hread
    obtain ⟨rfl, rfl⟩ := append_quote_inj (argumentsText_no_quote holeNames_isName)
      (readArguments_no_quote hargs) hin
    rw [readArguments_names _ holeNames_isName] at hargs
    split at hargs
    · rename_i hreserved
      cases hargs
      refine ⟨?_, hreserved⟩
      -- both texts make the same string of the same arguments
      have hread := formatWith_length hvalue
      have hwritten := formatWith_length hformat
      rcases hbound with ⟨-, hplain⟩ | hlt
      · exact hplain
      · dsimp only at hread hwritten
        omega
    · cases hargs
  · rintro ⟨hplain, hreserved⟩
    rw [readLiteral_plain hplain, Option.bind_some]
    dsimp only
    rw [readArguments_names _ holeNames_isName, if_pos hreserved, Option.bind_some]
    exact hformat

theorem fstring_iff (env : PyStr → PyStr) (values : List StrPart) :
    stringExpr reservedPoints env (fstring values) = some (values.flatMap (StrPart.eval env)) ↔
      (StrExpr.joinedStr values).Survives := by
  have hreserved : (∀ name ∈ holeNames values, reservedPoints name = false) ↔
      ∀ name, .formattedValue name ∈ values → reservedPoints name.val = false := by
    constructor
    · intro h name hname
      exact h name.val (mem_holeNames.mpr ⟨name.property, hname⟩)
    · intro h name hname
      obtain ⟨hisName, hmem⟩ := mem_holeNames.mp hname
      exact h ⟨name, hisName⟩ hmem
  rw [StrExpr.Survives, ← hreserved]
  by_cases hsurrogate : ∀ c ∈ fmtText values, ¬CodePoint.IsSurrogate c
  · have hconstants := fmtText_surrogate.mp hsurrogate
    by_cases hnames : holeNames values = []
    · rw [fstring_no_holes_iff env hnames hsurrogate, hnames, fmtText_plain]
      have hholes : ¬∃ name : PyName, .formattedValue name ∈ values := by
        rintro ⟨name, hname⟩
        have hmem := mem_holeNames.mpr ⟨name.property, hname⟩
        rw [hnames] at hmem
        cases hmem
      constructor
      · rintro ⟨hplain, hbrace⟩
        refine ⟨fun value hvalue ↦
          ⟨formatText_iff.mpr ⟨hplain value hvalue, hconstants value hvalue⟩, ?_⟩, by simp⟩
        rintro ⟨c, hc, hcbrace⟩
        exact absurd hcbrace (hbrace c (mem_fmtText.mpr (Or.inl ⟨value, hvalue, hc⟩)))
      · rintro ⟨h, -⟩
        refine ⟨fun value hvalue ↦ (formatText_iff.mp (h value hvalue).1).1, ?_⟩
        intro c hc hcbrace
        rcases mem_fmtText.mp hc with ⟨value, hvalue, hc⟩ | ⟨-, hhole⟩
        · exact hholes ((h value hvalue).2 ⟨c, hc, hcbrace⟩)
        · exact hholes hhole
    · rw [fstring_holes_iff env hnames hsurrogate, fmtText_plain]
      obtain ⟨name, hname⟩ := List.exists_mem_of_ne_nil _ hnames
      obtain ⟨hisName, hmem⟩ := mem_holeNames.mp hname
      apply and_congr_left
      intro _
      constructor
      · intro hplain value hvalue
        exact ⟨formatText_iff.mpr ⟨hplain value hvalue, hconstants value hvalue⟩,
          fun _ ↦ ⟨_, hmem⟩⟩
      · intro h value hvalue
        exact (formatText_iff.mp (h value hvalue).1).1
  · rw [fstring_surrogate env hsurrogate]
    refine iff_of_false (by simp) ?_
    rintro ⟨h, -⟩
    exact hsurrogate (fmtText_surrogate.mpr fun value hvalue ↦ (h value hvalue).1.no_surrogate)

/-- The Rust expression has the value of the Python one exactly when that survives. -/
theorem StrExpr.rust_iff (env : PyStr → PyStr) (e : StrExpr) :
    stringExpr reservedPoints env e.rust = some (e.eval env) ↔ e.Survives := by
  cases e with
  | constant value => exact constStr_iff env value
  | joinedStr values => exact fstring_iff env values

end FStrings

namespace Sample

/-- Identifiers, as far as ASCII text shows them. -/
scoped instance asciiXid : Xid where
  start c := c.val < 128 && (Char.ofNat c.val).isAlpha
  continues c := c.val < 128 && ((Char.ofNat c.val).isAlphanum || c = charPoint '_')
  start_ascii c h := by simp [h]
  continues_ascii c h := by simp [h]
  continues_of_start c h := by
    simp only [Bool.and_eq_true, decide_eq_true_eq] at h ⊢
    refine ⟨h.1, ?_⟩
    rw [Char.isAlphanum, h.2]
    rfl
  not_surrogate c h := by
    simp only [Bool.and_eq_true, decide_eq_true_eq] at h
    unfold CodePoint.IsSurrogate
    omega

end Sample

open Sample in
/-- A constant loses its carriage return, and an f-string of a brace has two of them. -/
theorem strings_change :
    stringExpr reservedPoints (fun _ ↦ []) (StrExpr.constant (points "\r\n")).rust ≠
        some ((StrExpr.constant (points "\r\n")).eval fun _ ↦ []) ∧
      stringExpr reservedPoints (fun _ ↦ []) (StrExpr.joinedStr [.constant (points "\x7b")]).rust ≠
        some ((StrExpr.joinedStr [.constant (points "\x7b")]).eval fun _ ↦ []) := by
  constructor
  · intro h
    exact ((constStr_iff _ _).mp h).no_cr List.mem_cons_self
  · intro h
    have hsurvives := (fstring_iff _ [.constant (points "\x7b")]).mp h
    obtain ⟨name, hname⟩ := (hsurvives.1 _ List.mem_cons_self).2
      ⟨charPoint '\x7b', List.mem_cons_self, Or.inl rfl⟩
    cases List.mem_singleton.mp hname

end TandemAio
