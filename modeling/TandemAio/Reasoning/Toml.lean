import TandemAio.Reasoning.PythonValues

/-!
# `tomllib.loads`

Python's parser of TOML documents: strings, keys, tables and statements, with the rules on what a
later statement may add.  An error of any kind is `none`.
-/

namespace Reasoning

inductive TomlValue
  | str (text : PyStr)
  /-- A boolean, a number, a date or a time, as it is written, with its truth. -/
  | scalar (text : PyStr) (truthy : Bool)
  | array (items : List TomlValue)
  | table (fields : List (PyStr × TomlValue))

abbrev TomlTable := List (PyStr × TomlValue)

abbrev TomlKey := List PyStr

/-- `bool(value)` -/
def TomlValue.truthy : TomlValue → Bool
  | .str text => text ≠ []
  | .scalar _ truthy => truthy
  | .array items => !items.isEmpty
  | .table fields => !fields.isEmpty

/-- What `parse_value` makes of a text that begins with no quotation mark: booleans, numbers,
dates, arrays and inline tables, with what follows them. -/
class TomlValues where
  other : PyStr → Option (TomlValue × PyStr)

namespace Toml

/-! ## Characters -/

def quote : CodePoint := charPoint '"'

def apostrophe : CodePoint := charPoint '\''

def backslash : CodePoint := charPoint '\\'

def newline : CodePoint := charPoint '\n'

/-- `TOML_WS` -/
def isWs (c : CodePoint) : Bool := c = charPoint ' ' || c = charPoint '\t'

/-- `BARE_KEY_CHARS` -/
def isBare (c : CodePoint) : Bool :=
  (charPoint 'a' ≤ c && c ≤ charPoint 'z') || (charPoint 'A' ≤ c && c ≤ charPoint 'Z') ||
    (charPoint '0' ≤ c && c ≤ charPoint '9') || c = charPoint '-' || c = charPoint '_'

/-- `ILLEGAL_BASIC_STR_CHARS`, `ILLEGAL_MULTILINE_BASIC_STR_CHARS` and those of the literal strings
and the comments. -/
def isIllegal (multiline : Bool) (c : CodePoint) : Bool :=
  (c.val < 32 || c.val = 127) && c ≠ charPoint '\t' && !(multiline && c = newline)

def skipWs (s : PyStr) : PyStr := s.dropWhile isWs

/-- `src.startswith(..)`, with what follows. -/
def startsWith (s start : PyStr) : Option PyStr :=
  if start.isPrefixOf s then some (s.drop start.length) else none

/-! ## Strings -/

/-- Where `parse_basic_str` stands. -/
inductive BasicMode
  | text
  /-- After a backslash. -/
  | escape
  | hex (left value : Nat)
  /-- After a backslash and white space, which must go on to the end of the line. -/
  | untilLine
  /-- White space and newlines after a backslash at the end of a line. -/
  | skipSpace
deriving DecidableEq

inductive BasicStep
  | fail
  | go (mode : BasicMode) (acc : PyStr)
  | done (text rest : PyStr)

/-- `BASIC_STR_ESCAPE_REPLACEMENTS` -/
def escapeReplacement (c : CodePoint) : Option CodePoint :=
  ([('b', '\x08'), ('t', '\t'), ('n', '\n'), ('f', '\x0c'), ('r', '\r'), ('"', '"'),
    ('\\', '\\')].find? fun (letter, _) ↦ charPoint letter = c).map fun (_, char) ↦ charPoint char

/-- The body of the loop of `parse_basic_str`. -/
def textStep (multiline : Bool) (acc : PyStr) (c : CodePoint) (rest : PyStr) : BasicStep :=
  if c = quote then
    if multiline then
      match startsWith rest [quote, quote] with
      | some rest => .done acc.reverse rest
      | none => .go .text (c :: acc)
    else .done acc.reverse rest
  else if c = backslash then .go .escape acc
  else if isIllegal multiline c then .fail
  else .go .text (c :: acc)

/-- One character of a basic string; `acc` is what has been read, in reverse. -/
def basicStep (multiline : Bool) (mode : BasicMode) (acc : PyStr) (c : CodePoint) (rest : PyStr) :
    BasicStep :=
  match mode with
  | .text => textStep multiline acc c rest
  | .escape =>
    if multiline && isWs c then .go .untilLine acc
    else if multiline && c = newline then .go .skipSpace acc
    else if c = charPoint 'u' then .go (.hex 4 0) acc
    else if c = charPoint 'U' then .go (.hex 8 0) acc
    else
      match escapeReplacement c with
      | none => .fail
      | some char => .go .text (char :: acc)
  | .hex left value =>
    match hexValue c with
    | none => .fail
    | some digit =>
      let value := value * 16 + digit
      if 1 < left then .go (.hex (left - 1) value) acc
      -- `is_unicode_scalar_value`
      else if value < 0xD800 ∨ (0xE000 ≤ value ∧ value < 0x110000) then
        .go .text (Fin.ofNat 0x110000 value :: acc)
      else .fail
  | .untilLine =>
    if isWs c then .go .untilLine acc else if c = newline then .go .skipSpace acc else .fail
  | .skipSpace =>
    if isWs c || c = newline then .go .skipSpace acc else textStep multiline acc c rest

/-- `parse_basic_str`, with what follows the string. -/
def scanBasic (multiline : Bool) : BasicMode → PyStr → PyStr → Option (PyStr × PyStr)
  | _, _, [] => none
  | mode, acc, c :: rest =>
    match basicStep multiline mode acc c rest with
    | .fail => none
    | .go mode acc => scanBasic multiline mode acc rest
    | .done text rest => some (text, rest)

/-- `parse_literal_str`, after the apostrophe. -/
def literalStr (s : PyStr) : Option (PyStr × PyStr) :=
  let text := s.takeWhile (· ≠ apostrophe)
  match s.dropWhile (· ≠ apostrophe) with
  | [] => none
  | _ :: rest => if text.any (isIllegal false) then none else some (text, rest)

/-- What stands before the first three apostrophes, and what follows them. -/
def untilApostrophes : PyStr → Option (PyStr × PyStr)
  | [] => none
  | c :: rest =>
    match startsWith (c :: rest) [apostrophe, apostrophe, apostrophe] with
    | some rest => some ([], rest)
    | none => (untilApostrophes rest).map fun (text, rest) ↦ (c :: text, rest)

/-- A string that ends in four or five quotation marks keeps one or two of them. -/
def extraQuotes (delim : CodePoint) (text rest : PyStr) : PyStr × PyStr :=
  match rest with
  | c :: d :: rest =>
    if c = delim then if d = delim then (text ++ [c, d], rest) else (text ++ [c], d :: rest)
    else (text, c :: d :: rest)
  | [c] => if c = delim then (text ++ [c], []) else (text, [c])
  | [] => (text, [])

/-- `parse_multiline_str`, after the three quotation marks. -/
def multilineStr (literal : Bool) (s : PyStr) : Option (PyStr × PyStr) :=
  let s := (startsWith s [newline]).getD s
  if literal then
    match untilApostrophes s with
    | none => none
    | some (text, rest) =>
      if text.any (isIllegal true) then none else some (extraQuotes apostrophe text rest)
  else (scanBasic true .text [] s).map fun (text, rest) ↦ extraQuotes quote text rest

/-- `parse_value` -/
def parseValue [TomlValues] (s : PyStr) : Option (TomlValue × PyStr) :=
  match s with
  | [] => none
  | c :: rest =>
    if c = quote then
      match startsWith rest [quote, quote] with
      | some rest => (multilineStr false rest).map fun (text, rest) ↦ (.str text, rest)
      | none => (scanBasic false .text [] rest).map fun (text, rest) ↦ (.str text, rest)
    else if c = apostrophe then
      match startsWith rest [apostrophe, apostrophe] with
      | some rest => (multilineStr true rest).map fun (text, rest) ↦ (.str text, rest)
      | none => (literalStr rest).map fun (text, rest) ↦ (.str text, rest)
    else TomlValues.other (c :: rest)

/-! ## Keys -/

/-- `parse_key_part` -/
def keyPart (s : PyStr) : Option (PyStr × PyStr) :=
  match s with
  | [] => none
  | c :: rest =>
    if isBare c then some ((c :: rest).takeWhile isBare, (c :: rest).dropWhile isBare)
    else if c = apostrophe then literalStr rest
    else if c = quote then scanBasic false .text [] rest
    else none

/-- At most `n` parts of a dotted key. -/
def keyParts : Nat → PyStr → Option (TomlKey × PyStr)
  | 0, _ => none
  | n + 1, s =>
    match keyPart s with
    | none => none
    | some (part, rest) =>
      match startsWith (skipWs rest) [charPoint '.'] with
      | none => some ([part], skipWs rest)
      | some rest => (keyParts n (skipWs rest)).map fun (parts, rest) ↦ (part :: parts, rest)

/-- `parse_key` -/
def parseKey (s : PyStr) : Option (TomlKey × PyStr) := keyParts s.length s

/-- `parse_key_value_pair` -/
def parsePair [TomlValues] (s : PyStr) : Option (TomlKey × TomlValue × PyStr) :=
  match parseKey s with
  | none => none
  | some (key, rest) =>
    match startsWith rest [charPoint '='] with
    | none => none
    | some rest => (parseValue (skipWs rest)).map fun (value, rest) ↦ (key, value, rest)

/-! ## Tables -/

/-- `fields[key] = value` -/
def setEntry (fields : TomlTable) (key : PyStr) (value : TomlValue) : TomlTable :=
  match fields with
  | [] => [(key, value)]
  | (k, v) :: rest => if k = key then (k, value) :: rest else (k, v) :: setEntry rest key value

/-- `get_or_create_nest`, with what is done to the nest. -/
def changeNest (change : TomlTable → Option TomlTable) : TomlKey → TomlTable → Option TomlTable
  | [], fields => change fields
  | k :: ks, fields =>
    match fields.lookup k with
    | none => (changeNest change ks []).map fun nest ↦ setEntry fields k (.table nest)
    | some (.table nest) =>
      (changeNest change ks nest).map fun nest ↦ setEntry fields k (.table nest)
    | some (.array items) =>
      match items.getLast? with
      | some (.table nest) => (changeNest change ks nest).map fun nest ↦
          setEntry fields k (.array (items.dropLast ++ [.table nest]))
      | _ => none
    | some _ => none

/-- `nest[key] = value`, for a key that is not there yet. -/
def addEntry (key : PyStr) (value : TomlValue) (fields : TomlTable) : Option TomlTable :=
  match fields.lookup key with
  | none => some (setEntry fields key value)
  | some _ => none

/-- `append_nest_to_list`, at the last part of the key. -/
def appendNest (key : PyStr) (fields : TomlTable) : Option TomlTable :=
  match fields.lookup key with
  | none => some (setEntry fields key (.array [.table []]))
  | some (.array items) => some (setEntry fields key (.array (items ++ [.table []])))
  | some _ => none

inductive Flag
  | frozen
  | explicitNest
deriving DecidableEq

/-- A flag that is set on a key; a recursive one holds of every key that goes on from there. -/
structure FlagMark where
  key : TomlKey
  flag : Flag
  recursive : Bool
deriving DecidableEq

/-- `flags.is_` -/
def hasFlag (flags : List FlagMark) (key : TomlKey) (flag : Flag) : Bool :=
  key ≠ [] && flags.any fun mark ↦ mark.flag = flag &&
    (mark.key = key || (mark.recursive && mark.key.isPrefixOf key))

/-! ## Statements -/

structure State where
  data : TomlTable
  flags : List FlagMark
  pending : List TomlKey
  header : TomlKey

def State.initial : State := ⟨[], [], [], []⟩

/-- `finalize_pending`; the only flag that is ever pending is `EXPLICIT_NEST`. -/
def State.finalizePending (st : State) : State :=
  { st with
    flags := st.flags ++ st.pending.map (⟨·, .explicitNest, false⟩), pending := [] }

/-- The rest of `create_dict_rule`, when the key has been read. -/
def State.openTable (st : State) (key : TomlKey) : Option State :=
  if hasFlag st.flags key .explicitNest || hasFlag st.flags key .frozen then none
  else (changeNest some key st.data).map fun data ↦
    { st with data := data, flags := st.flags ++ [⟨key, .explicitNest, false⟩], header := key }

/-- The rest of `create_list_rule`, when the key has been read. -/
def State.openArray (st : State) (key : TomlKey) : Option State :=
  if hasFlag st.flags key .frozen then none
  else (changeNest (appendNest (key.getLastD [])) key.dropLast st.data).map fun data ↦
    { st with
      data := data
      -- `unset_all`, and the flag of the key itself
      flags := st.flags.filter (fun mark ↦ !key.isPrefixOf mark.key) ++
        [⟨key, .explicitNest, false⟩]
      header := key }

/-- The prefixes of a key, without the empty one and the key itself. -/
def properPrefixes (key : TomlKey) : List TomlKey := key.inits.tail.dropLast

/-- `isinstance(value, (dict, list))` -/
def isNest : TomlValue → Bool
  | .array _ => true
  | .table _ => true
  | _ => false

/-- The rest of `key_value_rule`, when the pair has been read. -/
def State.assign (st : State) (key : TomlKey) (value : TomlValue) : Option State :=
  let containers := (properPrefixes key).map (st.header ++ ·)
  let parent := st.header ++ key.dropLast
  if containers.any (hasFlag st.flags · .explicitNest) || hasFlag st.flags parent .frozen then none
  else (changeNest (addEntry (key.getLastD []) value) parent st.data).map fun data ↦
    { st with
      data := data
      flags := if isNest value then st.flags ++ [⟨st.header ++ key, .frozen, true⟩]
        else st.flags
      pending := st.pending ++ containers }

/-- The rule that the first character of a statement calls for, with what it leaves of the text. -/
def statement [TomlValues] (st : State) (c : CodePoint) (rest : PyStr) : Option (PyStr × State) :=
  if isBare c || c = quote || c = apostrophe then
    match parsePair (c :: rest) with
    | none => none
    | some (key, value, rest) => (st.assign key value).map fun st ↦ (rest, st)
  else if c = charPoint '[' then
    match startsWith rest [charPoint '['] with
    | some rest =>
      match parseKey (skipWs rest) with
      | none => none
      | some (key, rest) =>
        match st.finalizePending.openArray key with
        | none => none
        | some st => (startsWith rest [charPoint ']', charPoint ']']).map fun rest ↦ (rest, st)
    | none =>
      match parseKey (skipWs rest) with
      | none => none
      | some (key, rest) =>
        match st.finalizePending.openTable key with
        | none => none
        | some st => (startsWith rest [charPoint ']']).map fun rest ↦ (rest, st)
  else if c = charPoint '#' then some (c :: rest, st)
  else none

/-- `skip_comment` -/
def skipComment (s : PyStr) : Option PyStr :=
  match startsWith s [charPoint '#'] with
  | none => some s
  | some s =>
    if (s.takeWhile (· ≠ newline)).any (isIllegal false) then none
    else some (s.dropWhile (· ≠ newline))

/-- At most `n` lines of the document. -/
def statements [TomlValues] : Nat → PyStr → State → Option TomlTable
  | 0, _, _ => none
  | n + 1, s, st =>
    match skipWs s with
    | [] => some st.data
    | c :: rest =>
      if c = newline then statements n rest st
      else
        match statement st c rest with
        | none => none
        | some (s, st) =>
          match skipComment (skipWs s) with
          | none => none
          | some [] => some st.data
          | some (c :: rest) => if c = newline then statements n rest st else none

/-- `s.replace("\r\n", "\n")` -/
def joinLineEnds : PyStr → PyStr
  | [] => []
  | [c] => [c]
  | c :: d :: rest =>
    if c = charPoint '\r' ∧ d = newline then newline :: joinLineEnds rest
    else c :: joinLineEnds (d :: rest)

/-- `tomllib.loads` -/
def loads [TomlValues] (s : PyStr) : Option TomlTable :=
  let src := joinLineEnds s
  statements (src.length + 1) src .initial

/-! ## Basic strings that stand for themselves -/

/-- A character that a basic string may hold as it is. -/
def PlainPoint (c : CodePoint) : Prop := c ≠ quote ∧ c ≠ backslash ∧ isIllegal false c = false

instance (c : CodePoint) : Decidable (PlainPoint c) := inferInstanceAs (Decidable (_ ∧ _))

theorem scanBasic_cons (multiline : Bool) (mode : BasicMode) (acc : PyStr) (c : CodePoint)
    (rest : PyStr) : scanBasic multiline mode acc (c :: rest) =
      match basicStep multiline mode acc c rest with
      | .fail => none
      | .go mode acc => scanBasic multiline mode acc rest
      | .done text rest => some (text, rest) := by
  rw [scanBasic]

theorem startsWith_append (start rest : PyStr) : startsWith (start ++ rest) start = some rest := by
  unfold startsWith
  rw [if_pos (List.isPrefixOf_iff_prefix.mpr (List.prefix_append start rest)), List.drop_left]

theorem eq_of_startsWith {s start rest : PyStr} (h : startsWith s start = some rest) :
    s = start ++ rest := by
  unfold startsWith at h
  by_cases hpre : start.isPrefixOf s = true
  · rw [if_pos hpre, Option.some.injEq] at h
    obtain ⟨rest', rfl⟩ := List.isPrefixOf_iff_prefix.mp hpre
    rw [List.drop_left] at h
    rw [h]
  · rw [if_neg hpre] at h
    cases h

theorem textStep_plain {c : CodePoint} (h : PlainPoint c) (acc rest : PyStr) :
    textStep false acc c rest = .go .text (c :: acc) := by
  obtain ⟨hquote, hbackslash, hlegal⟩ := h
  unfold textStep
  rw [if_neg hquote, if_neg hbackslash, hlegal]
  rfl

theorem scanBasic_plain {s : PyStr} (h : ∀ c ∈ s, PlainPoint c) (acc rest : PyStr) :
    scanBasic false .text acc (s ++ rest) = scanBasic false .text (s.reverse ++ acc) rest := by
  induction s generalizing acc with
  | nil => rfl
  | cons c s ih =>
    rw [List.cons_append, scanBasic_cons]
    have hstep : basicStep false .text acc c (s ++ rest) = .go .text (c :: acc) :=
      textStep_plain (h c List.mem_cons_self) acc (s ++ rest)
    rw [hstep]
    show scanBasic false .text (c :: acc) (s ++ rest) = _
    rw [ih fun d hd ↦ h d (List.mem_cons_of_mem c hd), List.reverse_cons, List.append_assoc]
    rfl

theorem scanBasic_quote (acc rest : PyStr) :
    scanBasic false .text acc (quote :: rest) = some (acc.reverse, rest) := rfl

/-- A plain string is read as it is. -/
theorem parseValue_plain [TomlValues] {s : PyStr} (h : ∀ c ∈ s, PlainPoint c) (hne : s ≠ [])
    (rest : PyStr) : parseValue (quote :: s ++ quote :: rest) = some (.str s, rest) := by
  obtain ⟨c, s, rfl⟩ := List.exists_cons_of_ne_nil hne
  have hc : c ≠ quote := (h c List.mem_cons_self).1
  have hone : startsWith (c :: s ++ quote :: rest) [quote, quote] = none := by
    cases hstart : startsWith (c :: s ++ quote :: rest) [quote, quote] with
    | none => rfl
    | some after =>
      have heq := eq_of_startsWith hstart
      rw [List.cons_append, List.cons_append, List.cons.injEq] at heq
      exact absurd heq.1 hc
  unfold parseValue
  rw [List.cons_append]
  dsimp only
  rw [if_pos rfl, hone]
  dsimp only
  rw [scanBasic_plain h, scanBasic_quote, List.append_nil, List.reverse_reverse]
  rfl

/-! ## What a basic string can be read as -/

section Scanning

variable {multiline : Bool} {mode mode' : BasicMode} {acc acc' text rest rest' : PyStr}
  {c : CodePoint}

/-- The sign that follows a key. -/
def equals : CodePoint := charPoint '='

theorem textStep_go (h : textStep multiline acc c rest = .go mode' acc') :
    (mode' = .text ∧ acc' = c :: acc) ∨ (mode' = .escape ∧ acc' = acc ∧ c = backslash) := by
  unfold textStep at h
  by_cases hquote : c = quote
  · rw [if_pos hquote] at h
    cases multiline with
    | false => cases h
    | true =>
      rw [if_pos rfl] at h
      cases hstart : startsWith rest [quote, quote] with
      | none =>
        rw [hstart] at h
        cases h
        exact .inl ⟨rfl, rfl⟩
      | some after =>
        rw [hstart] at h
        cases h
  · rw [if_neg hquote] at h
    by_cases hbackslash : c = backslash
    · rw [if_pos hbackslash] at h
      cases h
      exact .inr ⟨rfl, rfl, hbackslash⟩
    · rw [if_neg hbackslash] at h
      cases hillegal : isIllegal multiline c with
      | true =>
        rw [hillegal] at h
        cases h
      | false =>
        rw [hillegal] at h
        cases h
        exact .inl ⟨rfl, rfl⟩

theorem textStep_done (h : textStep multiline acc c rest = .done text rest') :
    text = acc.reverse ∧ c = quote ∧
      rest = (if multiline then [quote, quote] else []) ++ rest' := by
  unfold textStep at h
  by_cases hquote : c = quote
  · rw [if_pos hquote] at h
    cases multiline with
    | false =>
      cases h
      exact ⟨rfl, hquote, rfl⟩
    | true =>
      rw [if_pos rfl] at h
      cases hstart : startsWith rest [quote, quote] with
      | none =>
        rw [hstart] at h
        cases h
      | some after =>
        rw [hstart] at h
        cases h
        exact ⟨rfl, hquote, eq_of_startsWith hstart⟩
  · rw [if_neg hquote] at h
    by_cases hbackslash : c = backslash
    · rw [if_pos hbackslash] at h
      cases h
    · rw [if_neg hbackslash] at h
      cases hillegal : isIllegal multiline c with
      | true =>
        rw [hillegal] at h
        cases h
      | false =>
        rw [hillegal] at h
        cases h

/-- A step that ends the string is at a quotation mark. -/
theorem basicStep_done (h : basicStep multiline mode acc c rest = .done text rest') :
    text = acc.reverse ∧ c = quote ∧
      rest = (if multiline then [quote, quote] else []) ++ rest' := by
  cases mode with
  | text => exact textStep_done h
  | skipSpace =>
    unfold basicStep at h
    dsimp only at h
    by_cases hspace : (isWs c || c = newline) = true
    · rw [if_pos hspace] at h
      cases h
    · rw [if_neg hspace] at h
      exact textStep_done h
  | escape =>
    unfold basicStep at h
    dsimp only at h
    split_ifs at h
    cases hreplace : escapeReplacement c <;> rw [hreplace] at h <;> cases h
  | hex left value =>
    unfold basicStep at h
    dsimp only at h
    cases hhex : hexValue c with
    | none =>
      rw [hhex] at h
      cases h
    | some digit =>
      rw [hhex] at h
      dsimp only at h
      split_ifs at h
  | untilLine =>
    unfold basicStep at h
    dsimp only at h
    split_ifs at h

/-- Where an equals sign stands for itself, if anything does. -/
theorem basicStep_equals (h : basicStep multiline mode acc equals rest = .go mode' acc') :
    acc' = equals :: acc := by
  have htext : textStep multiline acc equals rest = .go mode' acc' → acc' = equals :: acc := by
    intro h
    rcases textStep_go h with ⟨-, rfl⟩ | ⟨-, -, hbackslash⟩
    · rfl
    · exact absurd hbackslash (by decide)
  have hspace : isWs equals = false := by decide
  have hline : equals ≠ newline := by decide
  cases mode with
  | text => exact htext h
  | skipSpace =>
    unfold basicStep at h
    rw [hspace, decide_eq_false hline] at h
    exact htext h
  | escape =>
    unfold basicStep at h
    rw [hspace, decide_eq_false hline, Bool.and_false] at h
    cases h
  | hex left value =>
    unfold basicStep at h
    have hhex : hexValue equals = none := by decide
    rw [hhex] at h
    cases h
  | untilLine =>
    unfold basicStep at h
    rw [hspace] at h
    dsimp only at h
    rw [if_neg Bool.false_ne_true, if_neg hline] at h
    cases h

/-- A step puts at most one character into the string. -/
theorem basicStep_push (h : basicStep multiline mode acc c rest = .go mode' acc') :
    acc' = acc ∨ ∃ d, acc' = d :: acc := by
  have htext : textStep multiline acc c rest = .go mode' acc' →
      acc' = acc ∨ ∃ d, acc' = d :: acc := by
    intro h
    rcases textStep_go h with ⟨-, rfl⟩ | ⟨-, rfl, -⟩
    · exact .inr ⟨c, rfl⟩
    · exact .inl rfl
  cases mode with
  | text => exact htext h
  | skipSpace =>
    unfold basicStep at h
    dsimp only at h
    by_cases hspace : (isWs c || c = newline) = true
    · rw [if_pos hspace] at h
      cases h
      exact .inl rfl
    · rw [if_neg hspace] at h
      exact htext h
  | escape =>
    unfold basicStep at h
    dsimp only at h
    split_ifs at h
    iterate 4
      cases h
      exact .inl rfl
    cases hreplace : escapeReplacement c with
    | none =>
      rw [hreplace] at h
      cases h
    | some char =>
      rw [hreplace] at h
      cases h
      exact .inr ⟨char, rfl⟩
  | hex left value =>
    unfold basicStep at h
    dsimp only at h
    cases hhex : hexValue c with
    | none =>
      rw [hhex] at h
      cases h
    | some digit =>
      rw [hhex] at h
      dsimp only at h
      split_ifs at h
      · cases h
        exact .inl rfl
      · cases h
        exact .inr ⟨_, rfl⟩
  | untilLine =>
    unfold basicStep at h
    dsimp only at h
    split_ifs at h
    · cases h
      exact .inl rfl
    · cases h
      exact .inl rfl

/-- A step takes at most its character into the string, and never drops an equals sign. -/
theorem basicStep_go (h : basicStep multiline mode acc c rest = .go mode' acc') :
    acc'.length ≤ acc.length + 1 ∧
      acc.count equals + [c].count equals ≤ acc'.count equals := by
  have hpush := basicStep_push h
  constructor
  · rcases hpush with rfl | ⟨d, rfl⟩
    · exact Nat.le_succ _
    · exact le_rfl
  · by_cases hc : c = equals
    · rw [hc] at h ⊢
      rw [basicStep_equals h, List.count_cons_self, List.count_cons_self, List.count_nil]
    · have hzero : [c].count equals = 0 := List.count_eq_zero.mpr (by simpa using Ne.symm hc)
      rw [hzero, Nat.add_zero]
      rcases hpush with rfl | ⟨d, rfl⟩
      · exact le_rfl
      · exact List.count_le_count_cons

/-- What has been read stays in the string. -/
theorem count_le_scanBasic {s : PyStr}
    (h : scanBasic multiline mode acc s = some (text, rest)) :
    acc.count equals ≤ text.count equals := by
  induction s generalizing mode acc with
  | nil => cases h
  | cons c s ih =>
    rw [scanBasic_cons] at h
    cases hstep : basicStep multiline mode acc c s with
    | fail =>
      rw [hstep] at h
      cases h
    | go mode' acc' =>
      rw [hstep] at h
      have hcount := (basicStep_go hstep).2
      have hrest := ih h
      omega
    | done text' rest' =>
      rw [hstep] at h
      cases h
      rw [(basicStep_done hstep).1, List.count_reverse]

/-- A text without quotation marks does not end a string, and a string that goes on through it
keeps its equals signs. -/
theorem count_scanBasic_append {between s : PyStr} (hbetween : quote ∉ between)
    (h : scanBasic multiline mode acc (between ++ s) = some (text, rest)) :
    acc.count equals + between.count equals ≤ text.count equals := by
  induction between generalizing mode acc with
  | nil =>
    have hcount := count_le_scanBasic h
    simpa using hcount
  | cons c between ih =>
    rw [List.cons_append, scanBasic_cons] at h
    have hrest : quote ∉ between := fun hmem ↦ hbetween (List.mem_cons_of_mem c hmem)
    cases hstep : basicStep multiline mode acc c (between ++ s) with
    | fail =>
      rw [hstep] at h
      cases h
    | go mode' acc' =>
      rw [hstep] at h
      have hcount := (basicStep_go hstep).2
      have hafter := ih hrest h
      have hcons : (c :: between).count equals = [c].count equals + between.count equals := by
        rw [← List.singleton_append, List.count_append]
      omega
    | done text' rest' =>
      have hquote := (basicStep_done hstep).2.1
      rw [hquote] at hbetween
      exact absurd List.mem_cons_self hbetween

/-- A string ends in the first part of a text, and is shorter than that part, or it holds all its
equals signs and those of the text between. -/
theorem scanBasic_split {part between after : PyStr} (hbetween : quote ∉ between)
    (h : scanBasic multiline mode acc (part ++ newline :: (between ++ after)) = some (text, rest)) :
    text.length + (if multiline then 3 else 1) ≤ acc.length + part.length ∨
      acc.count equals + part.count equals + between.count equals ≤ text.count equals := by
  induction part generalizing mode acc with
  | nil =>
    right
    have hquote : quote ∉ newline :: between := by
      intro hmem
      rcases List.mem_cons.mp hmem with heq | hmem
      · exact absurd heq (by decide)
      · exact hbetween hmem
    have hcount : acc.count equals + (newline :: between).count equals ≤ text.count equals :=
      count_scanBasic_append hquote h
    have hcons : (newline :: between).count equals = between.count equals :=
      List.count_cons_of_ne (by decide)
    rw [List.count_nil]
    omega
  | cons c part ih =>
    rw [List.cons_append, scanBasic_cons] at h
    have hcons : (c :: part).count equals = [c].count equals + part.count equals := by
      rw [← List.singleton_append, List.count_append]
    cases hstep : basicStep multiline mode acc c (part ++ newline :: (between ++ after)) with
    | fail =>
      rw [hstep] at h
      cases h
    | go mode' acc' =>
      rw [hstep] at h
      obtain ⟨hlength, hcount⟩ := basicStep_go hstep
      rcases ih h with hshort | hkept
      · left
        rw [List.length_cons]
        omega
      · right
        omega
    | done text' rest' =>
      left
      rw [hstep] at h
      cases h
      obtain ⟨htext, -, hrest⟩ := basicStep_done hstep
      rw [htext, List.length_reverse, List.length_cons]
      cases multiline with
      | false =>
        rw [if_neg Bool.false_ne_true]
        omega
      | true =>
        -- the newline is no quotation mark, so all three of them stand before it
        rw [if_pos rfl] at hrest ⊢
        match part, hrest with
        | [], hrest =>
          rw [List.nil_append, List.cons_append, List.cons.injEq] at hrest
          exact absurd hrest.1 (by decide)
        | [d], hrest =>
          rw [List.cons_append, List.nil_append, List.cons_append, List.cons_append,
            List.cons.injEq, List.cons.injEq] at hrest
          exact absurd hrest.2.1 (by decide)
        | d :: d' :: part, hrest =>
          rw [List.length_cons, List.length_cons]
          omega

/-- A string on one line is what is written, up to the first quotation mark, or shorter. -/
theorem scanLine_split {part between after : PyStr} (hbetween : quote ∉ between)
    (h : scanBasic false .text [] (part ++ newline :: (between ++ after)) = some (text, rest)) :
    (∃ others, part = text ++ quote :: others ∧ ∀ c ∈ text, PlainPoint c) ∨
      text.length + 2 ≤ part.length ∨
      part.count equals + between.count equals ≤ text.count equals := by
  -- up to the first character that is not plain, the string is what is written
  obtain ⟨plain, others, rfl, hplain, hothers⟩ : ∃ plain others, part = plain ++ others ∧
      (∀ c ∈ plain, PlainPoint c) ∧ ∀ c rest, others = c :: rest → ¬PlainPoint c := by
    refine ⟨part.takeWhile fun c ↦ decide (PlainPoint c), part.dropWhile fun c ↦ decide (PlainPoint c),
      (List.takeWhile_append_dropWhile).symm, ?_, ?_⟩
    · intro c hc
      have hdecide := List.mem_takeWhile_imp hc
      exact of_decide_eq_true hdecide
    · intro c rest heq hc
      have hhead := List.head_dropWhile_not (fun c ↦ decide (PlainPoint c)) (l := part)
        (by rw [heq]; exact List.cons_ne_nil c rest)
      simp only [heq, List.head_cons, decide_eq_false_iff_not] at hhead
      exact hhead hc
  rw [List.append_assoc, scanBasic_plain hplain, List.append_nil] at h
  cases others with
  | nil => cases h
  | cons c others =>
    rw [List.cons_append, scanBasic_cons] at h
    by_cases hquote : c = quote
    · left
      rw [hquote] at h ⊢
      cases h
      rw [List.reverse_reverse]
      exact ⟨others, rfl, hplain⟩
    · right
      by_cases hbackslash : c = backslash
      · rw [hbackslash] at h
        have hsplit := scanBasic_split hbetween h
        rw [List.length_reverse, if_neg Bool.false_ne_true, List.count_reverse] at hsplit
        rw [List.length_append, List.length_cons, List.count_append, hbackslash]
        have hcons : (backslash :: others).count equals = others.count equals :=
          List.count_cons_of_ne (by decide)
        omega
      · have hfail : basicStep false .text plain.reverse c
            (others ++ newline :: (between ++ after)) = .fail := by
          have hillegal : isIllegal false c = true := by
            by_contra hlegal
            exact hothers c others rfl ⟨hquote, hbackslash, Bool.eq_false_iff.mpr hlegal⟩
          show textStep false plain.reverse c (others ++ newline :: (between ++ after)) = .fail
          unfold textStep
          rw [if_neg hquote, if_neg hbackslash, hillegal]
          rfl
        rw [hfail] at h
        cases h

theorem extraQuotes_spec (delim : CodePoint) (text rest : PyStr) :
    (extraQuotes delim text rest).1.length ≤ text.length + 2 ∧
      text.count equals ≤ (extraQuotes delim text rest).1.count equals := by
  have hle : ∀ more : PyStr, text.count equals ≤ (text ++ more).count equals :=
    fun more ↦ (List.sublist_append_left text more).count_le equals
  unfold extraQuotes
  split
  · split_ifs
    · exact ⟨by simp, hle _⟩
    · exact ⟨by simp, hle _⟩
    · exact ⟨Nat.le_add_right _ _, le_rfl⟩
  · split_ifs
    · exact ⟨by simp, hle _⟩
    · exact ⟨Nat.le_add_right _ _, le_rfl⟩
  · exact ⟨Nat.le_add_right _ _, le_rfl⟩

/-- A string of several lines, after its first quotation marks. -/
theorem multilineStr_split {part between after : PyStr} (hbetween : quote ∉ between)
    (h : multilineStr false (part ++ quote :: newline :: (between ++ after)) = some (text, rest)) :
    text.length ≤ part.length ∨
      part.count equals + between.count equals ≤ text.count equals := by
  -- a newline at the beginning is left out
  obtain ⟨part', hpart, hlength, hcount⟩ : ∃ part',
      (startsWith (part ++ quote :: newline :: (between ++ after)) [newline]).getD
          (part ++ quote :: newline :: (between ++ after)) =
        part' ++ quote :: newline :: (between ++ after) ∧
      part'.length ≤ part.length ∧ part'.count equals = part.count equals := by
    cases hstart : startsWith (part ++ quote :: newline :: (between ++ after)) [newline] with
    | none => exact ⟨part, rfl, le_rfl, rfl⟩
    | some after' =>
      have heq := eq_of_startsWith hstart
      cases part with
      | nil =>
        rw [List.nil_append, List.cons_append, List.cons.injEq] at heq
        exact absurd heq.1 (by decide)
      | cons c part =>
        rw [List.cons_append, List.cons_append, List.nil_append, List.cons.injEq] at heq
        refine ⟨part, heq.2.symm, Nat.le_succ _, ?_⟩
        rw [heq.1, List.count_cons_of_ne (by decide)]
  unfold multilineStr at h
  dsimp only at h
  rw [hpart, if_neg Bool.false_ne_true, Option.map_eq_some_iff] at h
  obtain ⟨⟨read, remaining⟩, hscan, hquotes⟩ := h
  have hextra := extraQuotes_spec quote read remaining
  dsimp only at hquotes
  rw [hquotes] at hextra
  have hline : part' ++ quote :: newline :: (between ++ after) =
      (part' ++ [quote]) ++ newline :: (between ++ after) := by
    rw [List.append_assoc, List.singleton_append]
  rw [hline] at hscan
  have hsplit := scanBasic_split hbetween hscan
  rw [if_pos rfl, List.length_append, List.length_singleton, List.length_nil, List.count_append,
    List.count_nil] at hsplit
  dsimp only at hextra
  omega

/-- What a value can be read as that begins with a quotation mark, if another one and a newline
come later. -/
theorem parseValue_split [TomlValues] {part between after : PyStr} {value : TomlValue}
    (hbetween : quote ∉ between) (hequals : equals ∈ between)
    (h : parseValue (quote :: part ++ quote :: newline :: (between ++ after)) =
      some (value, rest)) :
    ∃ text, value = .str text ∧ ((text = part ∧ ∀ c ∈ part, PlainPoint c) ∨
      text.length < part.length ∨ part.count equals < text.count equals) := by
  have hpos : 0 < between.count equals := List.count_pos_iff.mpr hequals
  unfold parseValue at h
  rw [List.cons_append] at h
  dsimp only at h
  rw [if_pos rfl] at h
  cases hstart : startsWith (part ++ quote :: newline :: (between ++ after)) [quote, quote] with
  | none =>
    rw [hstart] at h
    dsimp only at h
    rw [Option.map_eq_some_iff] at h
    obtain ⟨⟨text, remaining⟩, hscan, hvalue⟩ := h
    cases hvalue
    refine ⟨text, rfl, ?_⟩
    have hline : part ++ quote :: newline :: (between ++ after) =
        (part ++ [quote]) ++ newline :: (between ++ after) := by
      rw [List.append_assoc, List.singleton_append]
    rw [hline] at hscan
    rcases scanLine_split hbetween hscan with ⟨others, hpart, hplain⟩ | hshort | hcount
    · rcases List.eq_nil_or_concat others with rfl | ⟨others, last, rfl⟩
      · left
        have heq : part = text := (List.append_inj' hpart rfl).1
        rw [heq]
        exact ⟨rfl, hplain⟩
      · right; left
        have hlength := congrArg List.length hpart
        simp only [List.length_append, List.length_cons, List.length_nil,
          List.concat_eq_append] at hlength
        omega
    · right; left
      rw [List.length_append, List.length_singleton] at hshort
      omega
    · right; right
      rw [List.count_append] at hcount
      omega
  | some after' =>
    rw [hstart] at h
    dsimp only at h
    rw [Option.map_eq_some_iff] at h
    obtain ⟨⟨text, remaining⟩, hscan, hvalue⟩ := h
    cases hvalue
    refine ⟨text, rfl, .inr ?_⟩
    have heq := eq_of_startsWith hstart
    match part, heq with
    | [], heq =>
      rw [List.nil_append, List.cons_append, List.cons_append, List.cons.injEq,
        List.cons.injEq] at heq
      exact absurd heq.2.1 (by decide)
    | [c], heq =>
      -- all three quotation marks are there, and the string goes on in the lines that follow
      right
      rw [List.cons_append, List.nil_append, List.cons_append, List.cons_append, List.nil_append,
        List.cons.injEq, List.cons.injEq] at heq
      obtain ⟨rfl, -, rfl⟩ := heq
      unfold multilineStr at hscan
      dsimp only at hscan
      have hfirst : startsWith (newline :: (between ++ after)) [newline] =
          some (between ++ after) := startsWith_append [newline] (between ++ after)
      rw [hfirst, if_neg Bool.false_ne_true, Option.map_eq_some_iff] at hscan
      obtain ⟨⟨read, remaining'⟩, hread, hquotes⟩ := hscan
      have hcount := count_scanBasic_append hbetween hread
      have hextra := (extraQuotes_spec quote read remaining').2
      dsimp only [Option.getD_some] at hquotes
      rw [hquotes] at hextra
      have hzero : [quote].count equals = 0 := by decide
      dsimp only at hextra
      rw [hzero]
      omega
    | c :: d :: part, heq =>
      rw [List.cons_append, List.cons_append, List.cons_append, List.cons_append, List.nil_append,
        List.cons.injEq, List.cons.injEq] at heq
      obtain ⟨rfl, rfl, rfl⟩ := heq
      have hsplit := multilineStr_split hbetween hscan
      have hcons : (quote :: quote :: part).count equals = part.count equals := by
        rw [List.count_cons_of_ne (by decide), List.count_cons_of_ne (by decide)]
      rw [List.length_cons, List.length_cons, hcons]
      omega

end Scanning

/-! ## Entries that stay -/

section Entries

variable {fields fields' : TomlTable} {key key' : PyStr} {value : TomlValue}

theorem lookup_setEntry_self (fields : TomlTable) (key : PyStr) (value : TomlValue) :
    (setEntry fields key value).lookup key = some value := by
  induction fields with
  | nil => exact List.lookup_cons_self
  | cons entry rest ih =>
    obtain ⟨k, v⟩ := entry
    rw [setEntry]
    by_cases hk : k = key
    · rw [if_pos hk, hk]
      exact List.lookup_cons_self
    · rw [if_neg hk, List.lookup_cons, beq_eq_false_iff_ne.mpr (Ne.symm hk)]
      exact ih

theorem lookup_setEntry_ne (hne : key' ≠ key) (fields : TomlTable) (value : TomlValue) :
    (setEntry fields key value).lookup key' = fields.lookup key' := by
  induction fields with
  | nil =>
    rw [setEntry, List.lookup_cons, beq_eq_false_iff_ne.mpr hne]
  | cons entry rest ih =>
    obtain ⟨k, v⟩ := entry
    rw [setEntry]
    by_cases hk : k = key
    · rw [if_pos hk, List.lookup_cons, List.lookup_cons, hk, beq_eq_false_iff_ne.mpr hne]
    · rw [if_neg hk, List.lookup_cons, List.lookup_cons, ih]

/-- The entries that are no arrays are still there. -/
def Keeps (fields fields' : TomlTable) : Prop :=
  ∀ key value, (∀ items, value ≠ .array items) → fields.lookup key = some value →
    fields'.lookup key = some value

theorem keeps_setEntry (hkey : ∀ value, (∀ items, value ≠ .array items) →
    fields.lookup key ≠ some value) : Keeps fields (setEntry fields key value) := by
  intro other kept harray hlookup
  have hne : other ≠ key := by
    rintro rfl
    exact hkey kept harray hlookup
  rwa [lookup_setEntry_ne hne]

theorem addEntry_keeps (h : addEntry key value fields = some fields') : Keeps fields fields' := by
  unfold addEntry at h
  cases hlookup : fields.lookup key with
  | none =>
    rw [hlookup, Option.some.injEq] at h
    rw [← h]
    apply keeps_setEntry
    intro kept harray
    rw [hlookup]
    exact Option.some_ne_none kept |>.symm
  | some old =>
    rw [hlookup] at h
    cases h

theorem appendNest_keeps (h : appendNest key fields = some fields') : Keeps fields fields' := by
  unfold appendNest at h
  cases hlookup : fields.lookup key with
  | none =>
    rw [hlookup, Option.some.injEq] at h
    rw [← h]
    apply keeps_setEntry
    intro kept harray
    rw [hlookup]
    exact Option.some_ne_none kept |>.symm
  | some old =>
    rw [hlookup] at h
    cases old with
    | array items =>
      rw [Option.some.injEq] at h
      rw [← h]
      apply keeps_setEntry
      intro kept harray heq
      rw [hlookup, Option.some.injEq] at heq
      exact harray items heq.symm
    | _ => cases h

/-- The string that stands under a key of a table of the document. -/
def HasText (fields : TomlTable) (outer inner : PyStr) (text : PyStr) : Prop :=
  ∃ nest, fields.lookup outer = some (.table nest) ∧ nest.lookup inner = some (.str text)

variable {change : TomlTable → Option TomlTable} {keys : TomlKey}

/-- What `changeNest` comes to at a key that it goes through. -/
theorem changeNest_cons {k : PyStr} (h : changeNest change (k :: keys) fields = some fields') :
    ∃ value, fields' = setEntry fields k value ∧ (∀ text, fields.lookup k ≠ some (.str text)) ∧
      ∀ nest, fields.lookup k = some (.table nest) →
        ∃ nest', changeNest change keys nest = some nest' ∧ value = .table nest' := by
  rw [changeNest] at h
  cases hlookup : fields.lookup k with
  | none =>
    rw [hlookup] at h
    dsimp only at h
    rw [Option.map_eq_some_iff] at h
    obtain ⟨nest', -, hset⟩ := h
    refine ⟨_, hset.symm, ?_, ?_⟩
    · rintro text ⟨⟩
    · rintro nest ⟨⟩
  | some old =>
    rw [hlookup] at h
    cases old with
    | str text => cases h
    | scalar text truthy => cases h
    | array items =>
      dsimp only at h
      cases hlast : items.getLast? with
      | none =>
        rw [hlast] at h
        cases h
      | some last =>
        rw [hlast] at h
        cases last with
        | table nest =>
          dsimp only at h
          rw [Option.map_eq_some_iff] at h
          obtain ⟨nest', -, hset⟩ := h
          refine ⟨_, hset.symm, ?_, ?_⟩
          · rintro text ⟨⟩
          · rintro nest ⟨⟩
        | _ => cases h
    | table nest =>
      dsimp only at h
      rw [Option.map_eq_some_iff] at h
      obtain ⟨nest', hnest, hset⟩ := h
      refine ⟨_, hset.symm, ?_, ?_⟩
      · rintro text ⟨⟩
      · rintro nest'' ⟨⟩
        exact ⟨nest', hnest, rfl⟩

theorem changeNest_text (hchange : ∀ u u', change u = some u' → Keeps u u')
    (h : changeNest change keys fields = some fields') {text : PyStr}
    (htext : fields.lookup key = some (.str text)) : fields'.lookup key = some (.str text) := by
  cases keys with
  | nil => exact hchange _ _ h key (.str text) (fun items heq ↦ by cases heq) htext
  | cons k keys =>
    obtain ⟨value, rfl, hstr, -⟩ := changeNest_cons h
    have hne : key ≠ k := by
      rintro rfl
      exact hstr text htext
    rwa [lookup_setEntry_ne hne]

/-- What is done to a nest does not change a string of a table. -/
theorem changeNest_hasText (hchange : ∀ u u', change u = some u' → Keeps u u')
    (h : changeNest change keys fields = some fields') {outer inner text : PyStr}
    (htext : HasText fields outer inner text) : HasText fields' outer inner text := by
  obtain ⟨nest, houter, hinner⟩ := htext
  cases keys with
  | nil =>
    exact ⟨nest, hchange _ _ h outer (.table nest) (fun items heq ↦ by cases heq) houter, hinner⟩
  | cons k keys =>
    obtain ⟨value, rfl, -, htable⟩ := changeNest_cons h
    by_cases hk : outer = k
    · rw [hk] at houter ⊢
      obtain ⟨nest', hnest, rfl⟩ := htable nest houter
      exact ⟨nest', lookup_setEntry_self _ _ _, changeNest_text hchange hnest hinner⟩
    · refine ⟨nest, ?_, hinner⟩
      rwa [lookup_setEntry_ne hk]

end Entries

section Documents

variable {st st' : State} {c : CodePoint} {s rest : PyStr} {n : Nat}

theorem openTable_data {key : TomlKey} (h : st.openTable key = some st') {outer inner text : PyStr}
    (htext : HasText st.data outer inner text) : HasText st'.data outer inner text := by
  unfold State.openTable at h
  split_ifs at h
  rw [Option.map_eq_some_iff] at h
  obtain ⟨data, hchange, rfl⟩ := h
  refine changeNest_hasText ?_ hchange htext
  intro u u' heq key value harray hlookup
  cases heq
  exact hlookup

theorem openArray_data {key : TomlKey} (h : st.openArray key = some st') {outer inner text : PyStr}
    (htext : HasText st.data outer inner text) : HasText st'.data outer inner text := by
  unfold State.openArray at h
  split_ifs at h
  rw [Option.map_eq_some_iff] at h
  obtain ⟨data, hchange, rfl⟩ := h
  exact changeNest_hasText (fun u u' ↦ appendNest_keeps) hchange htext

theorem assign_data {key : TomlKey} {value : TomlValue} (h : st.assign key value = some st')
    {outer inner text : PyStr} (htext : HasText st.data outer inner text) :
    HasText st'.data outer inner text := by
  unfold State.assign at h
  dsimp only at h
  split at h
  · cases h
  · rw [Option.map_eq_some_iff] at h
    obtain ⟨data, hchange, rfl⟩ := h
    exact changeNest_hasText (fun u u' ↦ addEntry_keeps) hchange htext

variable [TomlValues]

theorem statement_data (h : statement st c rest = some (s, st')) {outer inner text : PyStr}
    (htext : HasText st.data outer inner text) : HasText st'.data outer inner text := by
  unfold statement at h
  by_cases hkey : (isBare c || c = quote || c = apostrophe) = true
  · rw [if_pos hkey] at h
    cases hpair : parsePair (c :: rest) with
    | none =>
      rw [hpair] at h
      cases h
    | some pair =>
      rw [hpair] at h
      dsimp only at h
      rw [Option.map_eq_some_iff] at h
      obtain ⟨st'', hassign, heq⟩ := h
      cases heq
      exact assign_data hassign htext
  · rw [if_neg hkey] at h
    by_cases hbracket : c = charPoint '['
    · rw [if_pos hbracket] at h
      cases hsecond : startsWith rest [charPoint '['] with
      | some rest' =>
        rw [hsecond] at h
        dsimp only at h
        cases hparse : parseKey (skipWs rest') with
        | none =>
          rw [hparse] at h
          cases h
        | some parsed =>
          rw [hparse] at h
          dsimp only at h
          cases hopen : st.finalizePending.openArray parsed.1 with
          | none =>
            rw [hopen] at h
            cases h
          | some opened =>
            rw [hopen] at h
            dsimp only at h
            rw [Option.map_eq_some_iff] at h
            obtain ⟨after, -, heq⟩ := h
            cases heq
            exact openArray_data hopen htext
      | none =>
        rw [hsecond] at h
        dsimp only at h
        cases hparse : parseKey (skipWs rest) with
        | none =>
          rw [hparse] at h
          cases h
        | some parsed =>
          rw [hparse] at h
          dsimp only at h
          cases hopen : st.finalizePending.openTable parsed.1 with
          | none =>
            rw [hopen] at h
            cases h
          | some opened =>
            rw [hopen] at h
            dsimp only at h
            rw [Option.map_eq_some_iff] at h
            obtain ⟨after, -, heq⟩ := h
            cases heq
            exact openTable_data hopen htext
    · rw [if_neg hbracket] at h
      split_ifs at h
      cases h
      exact htext

/-- What `statements` does with the rest of a line. -/
def lineEnd (n : Nat) (s : PyStr) (st : State) : Option TomlTable :=
  match skipComment (skipWs s) with
  | none => none
  | some [] => some st.data
  | some (c :: rest) => if c = newline then statements n rest st else none

theorem statements_succ (n : Nat) (s : PyStr) (st : State) : statements (n + 1) s st =
    match skipWs s with
    | [] => some st.data
    | c :: rest =>
      if c = newline then statements n rest st
      else
        match statement st c rest with
        | none => none
        | some (s, st) => lineEnd n s st := by
  rw [statements]
  rfl

/-- A string that stands in a table stays there to the end of the document. -/
theorem statements_hasText {data : TomlTable} (h : statements n s st = some data)
    {outer inner text : PyStr} (htext : HasText st.data outer inner text) :
    HasText data outer inner text := by
  induction n generalizing s st with
  | zero => cases h
  | succ n ih =>
    rw [statements_succ] at h
    cases hskip : skipWs s with
    | nil =>
      rw [hskip] at h
      cases h
      exact htext
    | cons c rest =>
      rw [hskip] at h
      dsimp only at h
      by_cases hline : c = newline
      · rw [if_pos hline] at h
        exact ih h htext
      · rw [if_neg hline] at h
        cases hstatement : statement st c rest with
        | none =>
          rw [hstatement] at h
          cases h
        | some result =>
          obtain ⟨s', st'⟩ := result
          rw [hstatement] at h
          have htext' := statement_data hstatement htext
          dsimp only at h
          unfold lineEnd at h
          cases hcomment : skipComment (skipWs s') with
          | none =>
            rw [hcomment] at h
            cases h
          | some left =>
            rw [hcomment] at h
            cases left with
            | nil =>
              cases h
              exact htext'
            | cons d left =>
              dsimp only at h
              split_ifs at h
              exact ih h htext'

theorem lineEnd_hasText {data : TomlTable} (h : lineEnd n s st = some data)
    {outer inner text : PyStr} (htext : HasText st.data outer inner text) :
    HasText data outer inner text := by
  unfold lineEnd at h
  cases hcomment : skipComment (skipWs s) with
  | none =>
    rw [hcomment] at h
    cases h
  | some left =>
    rw [hcomment] at h
    cases left with
    | nil =>
      cases h
      exact htext
    | cons d left =>
      dsimp only at h
      split_ifs at h
      exact statements_hasText h htext

/-! ## Lines of a table -/

omit [TomlValues] in
theorem isBare_not_ws (h : isBare c = true) : isWs c = false := by
  cases hws : isWs c with
  | false => rfl
  | true =>
    unfold isWs at hws
    rw [Bool.or_eq_true, decide_eq_true_iff, decide_eq_true_iff] at hws
    rcases hws with rfl | rfl
    · exact absurd h (by decide)
    · exact absurd h (by decide)

omit [TomlValues] in
/-- A bare key before an equals sign. -/
theorem parseKey_bare {key : PyStr} (hbare : ∀ c ∈ key, isBare c = true) (hne : key ≠ [])
    (rest : PyStr) :
    parseKey (key ++ charPoint ' ' :: equals :: rest) = some ([key], equals :: rest) := by
  obtain ⟨c, key, rfl⟩ := List.exists_cons_of_ne_nil hne
  have hspace : isBare (charPoint ' ') = false := by decide
  have htake : (c :: key ++ charPoint ' ' :: equals :: rest).takeWhile isBare = c :: key := by
    rw [List.takeWhile_append_of_pos hbare, List.takeWhile_cons_of_neg (by rw [hspace]; decide),
      List.append_nil]
  have hdrop : (c :: key ++ charPoint ' ' :: equals :: rest).dropWhile isBare =
      charPoint ' ' :: equals :: rest := by
    rw [List.dropWhile_append_of_pos hbare, List.dropWhile_cons_of_neg (by rw [hspace]; decide)]
  have hpart : keyPart (c :: key ++ charPoint ' ' :: equals :: rest) =
      some (c :: key, charPoint ' ' :: equals :: rest) := by
    unfold keyPart
    rw [List.cons_append]
    dsimp only
    rw [if_pos (hbare c List.mem_cons_self), ← List.cons_append, htake, hdrop]
  have hskip : skipWs (charPoint ' ' :: equals :: rest) = equals :: rest := rfl
  have hdot : startsWith (equals :: rest) [charPoint '.'] = none := rfl
  unfold parseKey
  rw [List.cons_append, List.length_cons, ← List.cons_append, keyParts, hpart]
  dsimp only
  rw [hskip, hdot]

/-- A line that gives a bare key a value in quotation marks. -/
theorem statements_pair {key : PyStr} (hbare : ∀ c ∈ key, isBare c = true) (hne : key ≠ [])
    (n : Nat) (s : PyStr) (st : State) :
    statements (n + 1) (key ++ charPoint ' ' :: equals :: charPoint ' ' :: quote :: s) st =
      match parseValue (quote :: s) with
      | none => none
      | some (value, rest) =>
        match st.assign [key] value with
        | none => none
        | some st => lineEnd n rest st := by
  have hkey := parseKey_bare hbare hne (charPoint ' ' :: quote :: s)
  obtain ⟨c, key, rfl⟩ := List.exists_cons_of_ne_nil hne
  have hc := hbare c List.mem_cons_self
  have hline : c ≠ newline := by
    rintro rfl
    exact absurd hc (by decide)
  have hskip : skipWs (c :: (key ++ charPoint ' ' :: equals :: charPoint ' ' :: quote :: s)) =
      c :: (key ++ charPoint ' ' :: equals :: charPoint ' ' :: quote :: s) :=
    List.dropWhile_cons_of_neg (by rw [isBare_not_ws hc]; decide)
  have hpair : parsePair (c :: (key ++ charPoint ' ' :: equals :: charPoint ' ' :: quote :: s)) =
      (parseValue (quote :: s)).map fun (value, rest) ↦ ([c :: key], value, rest) := by
    unfold parsePair
    rw [← List.cons_append, hkey]
    rfl
  rw [List.cons_append, statements_succ, hskip]
  dsimp only
  rw [if_neg hline]
  unfold statement
  rw [hc, hpair]
  cases parseValue (quote :: s) with
  | none => rfl
  | some result =>
    obtain ⟨value, rest⟩ := result
    dsimp only [Option.map_some, Bool.true_or, if_true]
    cases st.assign [c :: key] value with
    | none => rfl
    | some st' => rfl

theorem statements_newline (n : Nat) (rest : PyStr) (st : State) :
    statements (n + 1) (newline :: rest) st = statements n rest st := rfl

/-- A line that is a comment. -/
theorem statements_comment {text : PyStr} (hlegal : ∀ c ∈ text, isIllegal false c = false) (n : Nat)
    (rest : PyStr) (st : State) :
    statements (n + 1) (charPoint '#' :: (text ++ newline :: rest)) st = statements n rest st := by
  have hline : ∀ c ∈ text, decide (c ≠ newline) = true := by
    intro c hc
    have hillegal : isIllegal false newline = true := by decide
    apply decide_eq_true
    rintro rfl
    rw [hlegal newline hc] at hillegal
    cases hillegal
  have htake : (text ++ newline :: rest).takeWhile (· ≠ newline) = text := by
    rw [List.takeWhile_append_of_pos hline]
    simp
  have hdrop : (text ++ newline :: rest).dropWhile (· ≠ newline) = newline :: rest := by
    rw [List.dropWhile_append_of_pos hline]
    simp
  have hany : text.any (isIllegal false) = false := by
    rw [List.any_eq_false]
    intro c hc
    rw [hlegal c hc]
    exact Bool.false_ne_true
  have hskip : skipComment (charPoint '#' :: (text ++ newline :: rest)) =
      some (newline :: rest) := by
    have hstart : startsWith (charPoint '#' :: (text ++ newline :: rest)) [charPoint '#'] =
        some (text ++ newline :: rest) := startsWith_append [charPoint '#'] _
    unfold skipComment
    rw [hstart]
    dsimp only
    rw [htake, hdrop, hany, if_neg Bool.false_ne_true]
  have hstatement : statements (n + 1) (charPoint '#' :: (text ++ newline :: rest)) st =
      lineEnd n (charPoint '#' :: (text ++ newline :: rest)) st := rfl
  have hws : skipWs (charPoint '#' :: (text ++ newline :: rest)) =
      charPoint '#' :: (text ++ newline :: rest) := rfl
  rw [hstatement]
  unfold lineEnd
  rw [hws, hskip]
  exact if_pos rfl

/-- The state in a table that was opened in an empty document, with some strings in it. -/
def State.inTable (name : PyStr) (fields : TomlTable) : State :=
  ⟨[(name, .table fields)], [⟨[name], .explicitNest, false⟩], [], [name]⟩

omit [TomlValues] in
theorem assign_inTable (name key text : PyStr) (fields : TomlTable) :
    (State.inTable name fields).assign [key] (.str text) =
      (addEntry key (.str text) fields).map (State.inTable name) := by
  have hfrozen : hasFlag [⟨[name], .explicitNest, false⟩] [name] .frozen = false := rfl
  have hlookup : List.lookup name [(name, TomlValue.table fields)] = some (.table fields) :=
    List.lookup_cons_self
  have hchange : changeNest (addEntry key (.str text)) [name] [(name, .table fields)] =
      (addEntry key (.str text) fields).map fun nest ↦ [(name, .table nest)] := by
    rw [changeNest, hlookup]
    show (addEntry key (.str text) fields).map
      (fun nest ↦ setEntry [(name, .table fields)] name (.table nest)) = _
    congr 1
    funext nest
    rw [setEntry, if_pos rfl]
  unfold State.assign
  have hcontainers : (properPrefixes [key]).map ((State.inTable name fields).header ++ ·) = [] :=
    rfl
  have hparent : (State.inTable name fields).header ++ [key].dropLast = [name] := rfl
  dsimp only
  rw [hcontainers, hparent]
  have hflag : ([].any (hasFlag (State.inTable name fields).flags · .explicitNest) ||
      hasFlag (State.inTable name fields).flags [name] .frozen) = false := hfrozen
  rw [hflag, if_neg Bool.false_ne_true]
  show (changeNest (addEntry key (.str text)) [name] [(name, .table fields)]).map _ = _
  rw [hchange, Option.map_map]
  rfl

end Documents

end Toml

end Reasoning
