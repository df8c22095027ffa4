import Mathlib.Data.List.TakeWhile
import TandemAio.Reasoning.CodePoints

/-!
# `json.loads`

Python's decoder of JSON documents, from the bytes of a document to its value, with the errors it
raises.  Nesting is bounded by the interpreter: a document that is nested deeper raises a
`RecursionError`.
-/

namespace Reasoning

/-! ## Values -/

/-- A double.  A finite one is `significand * 2 ^ exponent`. -/
inductive PyFloat
  | finite (negative : Bool) (significand : Nat) (exponent : Int)
  | infinity (negative : Bool)
  | nan
deriving DecidableEq

inductive JsonValue
  | null
  | bool (value : Bool)
  | int (value : Int)
  | float (value : PyFloat)
  | str (value : PyStr)
  | list (items : List JsonValue)
  | dict (pairs : List (PyStr × JsonValue))

/-- The keys and values of an object. -/
abbrev JsonFields := List (PyStr × JsonValue)

/-- `fields.get(key)` -/
def getField (fields : JsonFields) (key : String) : JsonValue :=
  (fields.lookup (points key)).getD .null

/-- `fields[key] = value` -/
def setField (fields : JsonFields) (key : PyStr) (value : JsonValue) : JsonFields :=
  match fields with
  | [] => [(key, value)]
  | (k, v) :: rest => if k = key then (k, value) :: rest else (k, v) :: setField rest key value

inductive JsonError
  /-- `json.JSONDecodeError`, with its `msg`. -/
  | decodeError (msg : String)
  | unicodeDecodeError
  /-- The `ValueError` of an integer of too many digits. -/
  | intDigits (digits : Nat)
  | recursionError
  /-- No error of Python's: the decoder has not finished. -/
  | outOfFuel
deriving DecidableEq

abbrev Decoded := Except JsonError

abbrev Scanner (α : Type) := PyStr → Decoded (α × PyStr)

def expected {α : Type} (what : String) : Decoded α :=
  .error (.decodeError ("Expecting " ++ what))

/-! ## Strings -/

/-- Where the scanner of a string stands. -/
inductive StringMode
  | text
  /-- A `\u` escape was read whose code unit may be half of a pair. -/
  | afterUnit (unit : CodePoint)
  | escape (pending : Option CodePoint)
  | hex (left value : Nat) (pending : Option CodePoint)

/-- The character of an escape other than `\u`. -/
def escaped (c : CodePoint) : Option CodePoint :=
  ([('"', '"'), ('\\', '\\'), ('/', '/'), ('b', '\x08'), ('f', '\x0c'), ('n', '\n'), ('r', '\r'),
    ('t', '\t')].find? fun (letter, _) ↦ charPoint letter = c).map fun (_, char) ↦ charPoint char

/-- `scanstring`, after the opening quote, with what it has read in reverse. -/
def scanString : StringMode → PyStr → PyStr → Decoded (PyStr × PyStr)
  | .text, _, [] => .error (.decodeError "Unterminated string starting at")
  | .escape _, _, [] => .error (.decodeError "Unterminated string starting at")
  | .afterUnit _, _, [] => .error (.decodeError "Invalid \\uXXXX escape")
  | .hex _ _ _, _, [] => .error (.decodeError "Invalid \\uXXXX escape")
  | .text, acc, c :: rest =>
    if c = charPoint '"' then .ok (acc.reverse, rest)
    else if c = charPoint '\\' then scanString (.escape none) acc rest
    else if c.val < 0x20 then .error (.decodeError "Invalid control character at")
    else scanString .text (c :: acc) rest
  | .afterUnit unit, acc, c :: rest =>
    if c = charPoint '"' then .ok ((unit :: acc).reverse, rest)
    else if c = charPoint '\\' then scanString (.escape (some unit)) acc rest
    else if c.val < 0x20 then .error (.decodeError "Invalid control character at")
    else scanString .text (c :: unit :: acc) rest
  | .escape pending, acc, c :: rest =>
    if c = charPoint 'u' then scanString (.hex 4 0 pending) acc rest
    else
      match escaped c with
      | none => .error (.decodeError "Invalid \\escape")
      | some char => scanString .text (char :: (pending.toList ++ acc)) rest
  | .hex left value pending, acc, c :: rest =>
    match hexValue c with
    | none => .error (.decodeError "Invalid \\uXXXX escape")
    | some digit =>
      let value := value * 16 + digit
      if 1 < left then scanString (.hex (left - 1) value pending) acc rest
      else
        let unit : CodePoint := Fin.ofNat 0x110000 value
        match pending with
        | none => scanString (.afterUnit unit) acc rest
        | some high =>
          if high.IsHighSurrogate ∧ unit.IsLowSurrogate then
            scanString .text (joinSurrogates high unit :: acc) rest
          else scanString (.afterUnit unit) (high :: acc) rest

/-! ## Numbers -/

def isDigit (c : CodePoint) : Bool := charPoint '0' ≤ c && c ≤ charPoint '9'

def digitsValue (digits : PyStr) : Nat := digits.foldl (fun n c ↦ n * 10 + (c.val - '0'.toNat)) 0

/-- `⌊log₂ (n / d)⌋` -/
def floorLog2 (n d : Nat) : Int :=
  let k := (n.log2 : Int) - d.log2
  let below := if 0 ≤ k then n < d * 2 ^ k.toNat else n * 2 ^ (-k).toNat < d
  if below then k - 1 else k

/-- The integer closest to `n / d`, an even one between two. -/
def roundHalfEven (n d : Nat) : Nat :=
  if 2 * (n % d) < d ∨ (2 * (n % d) = d ∧ (n / d) % 2 = 0) then n / d else n / d + 1

/-- The double closest to `n / d`. -/
def nearestDouble (negative : Bool) (n d : Nat) : PyFloat :=
  if n = 0 then .finite negative 0 0
  else
    let exponent := max (floorLog2 n d - 52) (-1074)
    let significand :=
      if 0 ≤ exponent then roundHalfEven n (d * 2 ^ exponent.toNat)
      else roundHalfEven (n * 2 ^ (-exponent).toNat) d
    let (significand, exponent) :=
      if significand = 2 ^ 53 then (2 ^ 52, exponent + 1) else (significand, exponent)
    if 971 < exponent then .infinity negative else .finite negative significand exponent

/-- The double that a decimal number writes. -/
def decimalDouble (negative : Bool) (whole fraction : PyStr) (exponent : Int) : PyFloat :=
  let n := digitsValue (whole ++ fraction)
  let scale := exponent - fraction.length
  if 0 ≤ scale then nearestDouble negative (n * 10 ^ scale.toNat) 1
  else nearestDouble negative n (10 ^ (-scale).toNat)

/-- A `.` and the digits after it. -/
def scanFraction : PyStr → PyStr × PyStr
  | [] => ([], [])
  | dot :: rest =>
    if dot = charPoint '.' then
      match rest.takeWhile isDigit with
      | [] => ([], dot :: rest)
      | digits => (digits, rest.dropWhile isDigit)
    else ([], dot :: rest)

/-- An `e` with the exponent after it. -/
def scanExponent : PyStr → Option Int × PyStr
  | [] => (none, [])
  | e :: rest =>
    if e = charPoint 'e' ∨ e = charPoint 'E' then
      let signed := rest.head? = some (charPoint '+') ∨ rest.head? = some (charPoint '-')
      let unsigned := if signed then rest.tail else rest
      match unsigned.takeWhile isDigit with
      | [] => (none, e :: rest)
      | digits =>
        let n : Int := digitsValue digits
        (some (if rest.head? = some (charPoint '-') then -n else n), unsigned.dropWhile isDigit)
    else (none, e :: rest)

/-- `sys.get_int_max_str_digits()` -/
def intMaxStrDigits : Nat := 4300

/-- `_match_number`, after the sign. -/
def matchUnsigned (negative : Bool) (s : PyStr) : Decoded (JsonValue × PyStr) :=
  match s with
  | [] => expected "value"
  | c :: rest =>
    if isDigit c then
      -- a leading zero is a number of its own
      let whole := if c = charPoint '0' then [c] else c :: rest.takeWhile isDigit
      let rest := if c = charPoint '0' then rest else rest.dropWhile isDigit
      let (fraction, rest) := scanFraction rest
      let (exponent, rest) := scanExponent rest
      if fraction = [] ∧ exponent = none then
        if intMaxStrDigits < whole.length then .error (.intDigits whole.length)
        else
          let n : Int := digitsValue whole
          .ok (.int (if negative then -n else n), rest)
      else .ok (.float (decimalDouble negative whole fraction (exponent.getD 0)), rest)
    else expected "value"

/-- The constants that the scanner knows. -/
def jsonConstants : List (String × JsonValue) :=
  [("null", .null), ("true", .bool true), ("false", .bool false), ("NaN", .float .nan),
    ("Infinity", .float (.infinity false)), ("-Infinity", .float (.infinity true))]

/-- A constant or a number. -/
def scanAtom (s : PyStr) : Decoded (JsonValue × PyStr) :=
  match jsonConstants.find? fun (name, _) ↦ (points name).isPrefixOf s with
  | some (name, value) => .ok (value, s.drop (points name).length)
  | none =>
    match s with
    | [] => expected "value"
    | c :: rest => if c = charPoint '-' then matchUnsigned true rest else matchUnsigned false s

/-! ## Arrays and objects -/

def jsonSpace (c : CodePoint) : Bool :=
  c = charPoint ' ' || c = charPoint '\t' || c = charPoint '\n' || c = charPoint '\r'

def skipSpace (s : PyStr) : PyStr := s.dropWhile jsonSpace

/-- The items of an array, of which there is at least one. -/
def scanItems (scan : Scanner JsonValue) : Nat → Scanner (List JsonValue)
  | 0, _ => .error .outOfFuel
  | fuel + 1, s => do
    let (item, s) ← scan s
    match skipSpace s with
    | [] => expected "',' delimiter"
    | c :: rest =>
      if c = charPoint ']' then return ([item], rest)
      else if c = charPoint ',' then
        let (items, rest) ← scanItems scan fuel (skipSpace rest)
        return (item :: items, rest)
      else expected "',' delimiter"

/-- One key of an object, with its value. -/
def scanPair (scan : Scanner JsonValue) (s : PyStr) : Decoded ((PyStr × JsonValue) × PyStr) :=
  match s with
  | [] => expected "property name enclosed in double quotes"
  | quote :: rest =>
    if quote = charPoint '"' then do
      let (key, rest) ← scanString .text [] rest
      match skipSpace rest with
      | [] => expected "':' delimiter"
      | colon :: rest =>
        if colon = charPoint ':' then
          let (value, rest) ← scan (skipSpace rest)
          return ((key, value), rest)
        else expected "':' delimiter"
    else expected "property name enclosed in double quotes"

/-- The pairs of an object, of which there is at least one. -/
def scanPairs (scan : Scanner JsonValue) : Nat → JsonFields → Scanner JsonFields
  | 0, _, _ => .error .outOfFuel
  | fuel + 1, fields, s => do
    let ((key, value), s) ← scanPair scan s
    let fields := setField fields key value
    match skipSpace s with
    | [] => expected "',' delimiter"
    | c :: rest =>
      if c = charPoint '\x7d' then return (fields, rest)
      else if c = charPoint ',' then scanPairs scan fuel fields (skipSpace rest)
      else expected "',' delimiter"

/-- What comes after an opening bracket: the end, or what `more` scans. -/
def scanBody {α : Type} (close : Char) (empty : α) (more : Scanner α) (s : PyStr) :
    Decoded (α × PyStr) :=
  match skipSpace s with
  | [] => more []
  | c :: rest => if c = charPoint close then .ok (empty, rest) else more (c :: rest)

/-- `scan_once`, with the scanner of what is nested in it, if it may nest. -/
def scanValue (nested : Option (Scanner JsonValue)) (fuel : Nat) (s : PyStr) :
    Decoded (JsonValue × PyStr) :=
  match s with
  | [] => expected "value"
  | c :: rest =>
    if c = charPoint '"' then do
      let (text, rest) ← scanString .text [] rest
      return (.str text, rest)
    else if c = charPoint '[' then
      match nested with
      | none => .error .recursionError
      | some scan => do
        let (items, rest) ← scanBody ']' [] (scanItems scan fuel) rest
        return (.list items, rest)
    else if c = charPoint '\x7b' then
      match nested with
      | none => .error .recursionError
      | some scan => do
        let (fields, rest) ← scanBody '\x7d' [] (scanPairs scan fuel []) rest
        return (.dict fields, rest)
    else scanAtom s

/-- `scan_once`, of a value that is nested at most `depth` deep. -/
def scanOnce (fuel : Nat) : Nat → Scanner JsonValue
  | 0 => scanValue none fuel
  | depth + 1 => scanValue (some (scanOnce fuel depth)) fuel

/-- `JSONDecoder.decode` -/
def jsonDecode (depth : Nat) (s : PyStr) : Decoded JsonValue := do
  let (value, rest) ← scanOnce s.length depth (skipSpace s)
  if skipSpace rest = [] then return value else .error (.decodeError "Extra data")

/-! ## Bytes -/

/-- The text of a document in the encoding that `json.detect_encoding` finds. -/
def jsonText (bytes : List UInt8) : Option PyStr :=
  match bytes with
  | 0x00 :: 0x00 :: 0xFE :: 0xFF :: rest => utf32Points .big rest
  | 0xFF :: 0xFE :: 0x00 :: 0x00 :: rest => utf32Points .little rest
  | 0xFE :: 0xFF :: rest => utf16Points .big rest
  | 0xFF :: 0xFE :: rest => utf16Points .little rest
  | 0xEF :: 0xBB :: 0xBF :: rest => utf8Points rest
  | a :: b :: c :: d :: _ =>
    if a = 0 then if b ≠ 0 then utf16Points .big bytes else utf32Points .big bytes
    else if b = 0 then
      if c ≠ 0 ∨ d ≠ 0 then utf16Points .little bytes else utf32Points .little bytes
    else utf8Points bytes
  | [a, b] =>
    if a = 0 then utf16Points .big bytes
    else if b = 0 then utf16Points .little bytes
    else utf8Points bytes
  | _ => utf8Points bytes

/-- `json.loads`, of bytes. -/
def jsonLoads (depth : Nat) (bytes : List UInt8) : Decoded JsonValue :=
  match jsonText bytes with
  | none => .error .unicodeDecodeError
  | some text => jsonDecode depth text

/-! ## Termination

What is scanned is never empty, so that there is fuel for every item of a document. -/

section Progress

variable {α β : Type} {s : PyStr}

/-- A scan that comes to an end, and leaves less than it was given if it succeeds. -/
def Consumes (s : PyStr) (result : Decoded (α × PyStr)) : Prop :=
  result ≠ .error .outOfFuel ∧ ∀ a rest, result = .ok (a, rest) → rest.length < s.length

theorem Consumes.error {e : JsonError} (he : e ≠ .outOfFuel) :
    Consumes s (.error e : Decoded (α × PyStr)) := by
  refine ⟨?_, ?_⟩
  · intro h
    exact he (Except.error.inj h)
  · intro a rest h
    cases h

theorem Consumes.expected {what : String} :
    Consumes s (expected what : Decoded (α × PyStr)) :=
  Consumes.error (by simp)

theorem Consumes.ok {a : α} {rest : PyStr} (h : rest.length < s.length) :
    Consumes s (.ok (a, rest) : Decoded (α × PyStr)) := by
  refine ⟨by simp, ?_⟩
  intro a' rest' heq
  cases heq
  exact h

theorem Consumes.mono {t : PyStr} {result : Decoded (α × PyStr)} (h : Consumes t result)
    (hle : t.length ≤ s.length) : Consumes s result :=
  ⟨h.1, fun a rest heq ↦ lt_of_lt_of_le (h.2 a rest heq) hle⟩

theorem Consumes.bind {result : Decoded (α × PyStr)} {f : α × PyStr → Decoded (β × PyStr)}
    (h : Consumes s result) (hf : ∀ a rest, rest.length < s.length → Consumes s (f (a, rest))) :
    Consumes s (result >>= f) := by
  cases result with
  | error e => exact Consumes.error fun he ↦ h.1 (by rw [he])
  | ok out =>
    obtain ⟨a, rest⟩ := out
    exact hf a rest (h.2 a rest rfl)

theorem length_skipSpace (s : PyStr) : (skipSpace s).length ≤ s.length :=
  (List.dropWhile_suffix jsonSpace).length_le

theorem consumes_scanString (mode : StringMode) (acc s : PyStr) :
    Consumes s (scanString mode acc s) := by
  induction s generalizing mode acc with
  | nil => cases mode <;> exact Consumes.error (by simp)
  | cons c rest ih =>
    have hlt : rest.length < (c :: rest).length := by simp
    have hrest : ∀ mode acc, Consumes (c :: rest) (scanString mode acc rest) := fun mode acc ↦
      (ih mode acc).mono (Nat.le_of_lt hlt)
    cases mode with
    | text =>
      rw [scanString]
      split_ifs
      · exact Consumes.ok hlt
      · exact hrest _ _
      · exact Consumes.error (by simp)
      · exact hrest _ _
    | afterUnit unit =>
      rw [scanString]
      split_ifs
      · exact Consumes.ok hlt
      · exact hrest _ _
      · exact Consumes.error (by simp)
      · exact hrest _ _
    | escape pending =>
      rw [scanString]
      split_ifs
      · exact hrest _ _
      · split
        · exact Consumes.error (by simp)
        · exact hrest _ _
    | hex left value pending =>
      rw [scanString]
      split
      · exact Consumes.error (by simp)
      · dsimp only
        split_ifs
        · exact hrest _ _
        · split
          · exact hrest _ _
          · split_ifs
            · exact hrest _ _
            · exact hrest _ _

theorem length_scanFraction (s : PyStr) : (scanFraction s).2.length ≤ s.length := by
  cases s with
  | nil => exact Nat.le_refl _
  | cons dot rest =>
    have hle := (List.dropWhile_suffix (l := rest) isDigit).length_le
    rw [scanFraction]
    split
    · split
      · exact Nat.le_refl _
      · rw [List.length_cons]
        dsimp only
        omega
    · exact Nat.le_refl _

theorem length_scanExponent (s : PyStr) : (scanExponent s).2.length ≤ s.length := by
  cases s with
  | nil => exact Nat.le_refl _
  | cons e rest =>
    rw [scanExponent]
    split
    · dsimp only
      split
      · exact Nat.le_refl _
      · refine le_trans (List.dropWhile_suffix isDigit).length_le ?_
        rw [List.length_cons]
        split
        · rw [List.length_tail]
          omega
        · omega
    · exact Nat.le_refl _

theorem consumes_matchUnsigned (negative : Bool) (s : PyStr) :
    Consumes s (matchUnsigned negative s) := by
  cases s with
  | nil => exact Consumes.expected
  | cons c rest =>
    rw [matchUnsigned]
    split
    · have hdigits : (if c = charPoint '0' then rest else rest.dropWhile isDigit).length ≤
          rest.length := by
        split
        · exact Nat.le_refl _
        · exact (List.dropWhile_suffix isDigit).length_le
      have hfraction := length_scanFraction
        (if c = charPoint '0' then rest else rest.dropWhile isDigit)
      have hexponent := length_scanExponent (scanFraction
        (if c = charPoint '0' then rest else rest.dropWhile isDigit)).2
      have hlt : (scanExponent (scanFraction
          (if c = charPoint '0' then rest else rest.dropWhile isDigit)).2).2.length <
            (c :: rest).length := by
        rw [List.length_cons]
        omega
      revert hlt
      generalize (if c = charPoint '0' then rest else rest.dropWhile isDigit) = after
      generalize (if c = charPoint '0' then [c] else c :: rest.takeWhile isDigit) = whole
      intro hlt
      dsimp only
      split
      · split
        · exact Consumes.error (by simp)
        · exact Consumes.ok hlt
      · exact Consumes.ok hlt
    · exact Consumes.expected

theorem consumes_scanAtom (s : PyStr) : Consumes s (scanAtom s) := by
  unfold scanAtom
  split
  · rename_i name value hfind
    have hconstants : ∀ entry ∈ jsonConstants, 0 < (points entry.1).length := by decide
    have hmatch : (points name).isPrefixOf s = true :=
      List.find?_some (p := fun entry : String × JsonValue ↦ (points entry.1).isPrefixOf s) hfind
    have hprefix := List.isPrefixOf_iff_prefix.mp hmatch
    have hpos := hconstants _ (List.mem_of_find?_eq_some hfind)
    have hle := hprefix.length_le
    apply Consumes.ok
    rw [List.length_drop]
    dsimp only at hpos hle
    omega
  · split
    · exact Consumes.expected
    · split
      · exact (consumes_matchUnsigned true _).mono (by simp)
      · exact consumes_matchUnsigned false _

/-- A scanner that consumes every text of at most `fuel` code points. -/
def ConsumesUpTo (fuel : Nat) (scan : Scanner α) : Prop :=
  ∀ s : PyStr, s.length ≤ fuel → Consumes s (scan s)

variable {bound : Nat} {scan : Scanner JsonValue}

theorem consumes_scanItems (hscan : ConsumesUpTo bound scan) (fuel : Nat) (s : PyStr)
    (hle : s.length ≤ bound) (hfuel : s.length < fuel) : Consumes s (scanItems scan fuel s) := by
  induction fuel generalizing s with
  | zero => exact absurd hfuel (Nat.not_lt_zero _)
  | succ fuel ih =>
    rw [scanItems]
    apply (hscan s hle).bind
    intro item s' hs'
    dsimp only
    split
    · exact Consumes.expected
    · rename_i c rest hskip
      have hspace := length_skipSpace s'
      rw [hskip, List.length_cons] at hspace
      split_ifs
      · exact Consumes.ok (by omega)
      · have hrest := length_skipSpace rest
        apply Consumes.bind ((ih (skipSpace rest) (by omega) (by omega)).mono (by omega))
        intro items rest' hrest'
        exact Consumes.ok hrest'
      · exact Consumes.expected

theorem consumes_scanPair (hscan : ConsumesUpTo bound scan) (s : PyStr) (hle : s.length ≤ bound) :
    Consumes s (scanPair scan s) := by
  cases s with
  | nil => exact Consumes.expected
  | cons quote rest =>
    rw [List.length_cons] at hle
    rw [scanPair]
    split
    · apply Consumes.bind ((consumes_scanString .text [] rest).mono (by simp))
      intro key s' hs'
      rw [List.length_cons] at hs'
      dsimp only
      split
      · exact Consumes.expected
      · rename_i colon rest' hskip
        have hspace := length_skipSpace s'
        have hrest := length_skipSpace rest'
        rw [hskip, List.length_cons] at hspace
        split
        · apply Consumes.bind ((hscan (skipSpace rest') (by omega)).mono
            (by rw [List.length_cons]; omega))
          intro value rest'' hrest''
          exact Consumes.ok hrest''
        · exact Consumes.expected
    · exact Consumes.expected

theorem consumes_scanPairs (hscan : ConsumesUpTo bound scan) (fuel : Nat) (fields : JsonFields)
    (s : PyStr) (hle : s.length ≤ bound) (hfuel : s.length < fuel) :
    Consumes s (scanPairs scan fuel fields s) := by
  induction fuel generalizing fields s with
  | zero => exact absurd hfuel (Nat.not_lt_zero _)
  | succ fuel ih =>
    rw [scanPairs]
    apply (consumes_scanPair hscan s hle).bind
    intro pair s' hs'
    dsimp only
    split
    · exact Consumes.expected
    · rename_i c rest hskip
      have hspace := length_skipSpace s'
      rw [hskip, List.length_cons] at hspace
      split_ifs
      · exact Consumes.ok (by omega)
      · have hrest := length_skipSpace rest
        exact (ih _ (skipSpace rest) (by omega) (by omega)).mono (by omega)
      · exact Consumes.expected

theorem consumes_scanBody {close : Char} {empty : α} {more : Scanner α}
    {s : PyStr} (hmore : ∀ t : PyStr, t.length ≤ s.length → Consumes t (more t)) :
    ∀ t : PyStr, s.length < t.length → Consumes t (scanBody close empty more s) := by
  intro t ht
  have hspace := length_skipSpace s
  unfold scanBody
  split
  · exact (hmore [] (Nat.zero_le _)).mono (Nat.zero_le _)
  · rename_i c rest hskip
    rw [hskip, List.length_cons] at hspace
    split
    · exact Consumes.ok (by omega)
    · apply (hmore (c :: rest) (by rw [List.length_cons]; omega)).mono
      rw [List.length_cons]
      omega

theorem consumes_scanValue {nested : Option (Scanner JsonValue)} {fuel : Nat}
    (hnested : ∀ scan, nested = some scan → ConsumesUpTo fuel scan) :
    ConsumesUpTo fuel (scanValue nested fuel) := by
  intro s hle
  cases s with
  | nil => exact Consumes.expected
  | cons c rest =>
    have hlt : rest.length < (c :: rest).length := by simp
    rw [List.length_cons] at hle
    rw [scanValue.eq_def]
    dsimp only
    split_ifs
    · apply Consumes.bind ((consumes_scanString .text [] rest).mono (Nat.le_of_lt hlt))
      intro text rest' hrest'
      exact Consumes.ok hrest'
    · split
      · exact Consumes.error (by simp)
      · rename_i scan
        have hscan := hnested scan rfl
        have hitems : ∀ t : PyStr, t.length ≤ rest.length → Consumes t (scanItems scan fuel t) :=
          fun t ht ↦ consumes_scanItems hscan fuel t (by omega) (by omega)
        apply Consumes.bind (consumes_scanBody hitems (c :: rest) hlt)
        intro items rest' hrest'
        exact Consumes.ok hrest'
    · split
      · exact Consumes.error (by simp)
      · rename_i scan
        have hscan := hnested scan rfl
        have hpairs : ∀ t : PyStr, t.length ≤ rest.length →
            Consumes t (scanPairs scan fuel [] t) :=
          fun t ht ↦ consumes_scanPairs hscan fuel [] t (by omega) (by omega)
        apply Consumes.bind (consumes_scanBody hpairs (c :: rest) hlt)
        intro fields rest' hrest'
        exact Consumes.ok hrest'
    · exact consumes_scanAtom _

theorem consumes_scanOnce (fuel depth : Nat) : ConsumesUpTo fuel (scanOnce fuel depth) := by
  induction depth with
  | zero => exact consumes_scanValue (by simp)
  | succ depth ih =>
    apply consumes_scanValue
    intro scan hscan
    cases hscan
    exact ih

end Progress

/-- The decoder always finishes. -/
theorem jsonLoads_ne_outOfFuel (depth : Nat) (bytes : List UInt8) :
    jsonLoads depth bytes ≠ .error .outOfFuel := by
  unfold jsonLoads
  split
  · simp
  · rename_i text _
    have hscan := consumes_scanOnce text.length depth (skipSpace text) (length_skipSpace text)
    unfold jsonDecode
    cases hresult : scanOnce text.length depth (skipSpace text) with
    | error e =>
      rw [hresult] at hscan
      intro h
      exact hscan.1 (congrArg Except.error (Except.error.inj h))
    | ok out =>
      dsimp only [bind, Except.bind]
      split
      · simp [pure, Except.pure]
      · simp

end Reasoning
