import Mathlib
import TandemAio.Reasoning.CodePoints

/-!
# File names

What the clients and the server make file names with: `str.strip`, `pathlib.Path.name` and
`werkzeug.utils.secure_filename`.
-/

open Reasoning

namespace TandemAio

/-- `c.isspace()` -/
def isspace (c : Char) : Bool := spaceCode c.toNat

/-- `s.strip(..)` of the characters that satisfy `p`. -/
def stripChars (p : Char → Bool) (s : List Char) : List Char := (s.dropWhile p).rdropWhile p

/-- `s.strip()` -/
def strStrip (s : String) : String := String.ofList (stripChars isspace s.toList)

/-- `Path(s).name`: the last component that is not `.`. -/
def pathName (s : String) : String :=
  String.ofList
    (((s.toList.splitOnP (· == '/')).filter fun part ↦ part ≠ [] ∧ part ≠ ['.']).getLast?.getD [])

/-- `normalize("NFKD", c)` followed by `.encode("ascii", "ignore")`. -/
class AsciiFold where
  fold : Char → List Char
  fold_ascii : ∀ c, c.toNat < 128 → fold c = [c]
  ascii_of_fold : ∀ c, ∀ d ∈ fold c, d.toNat < 128

/-- `[A-Za-z0-9_.-]` -/
def filenameChar (c : Char) : Bool := c.isAlphanum || c == '_' || c == '.' || c == '-'

/-- The characters that `secure_filename` strips. -/
def dotOrUnderscore (c : Char) : Bool := c == '.' || c == '_'

/-- `"_".join(s.split())` -/
def joinWords (s : List Char) : List Char :=
  ['_'].intercalate ((s.splitOnP isspace).filter (· ≠ []))

def secureFilename [AsciiFold] (filename : String) : String :=
  let ascii := filename.toList.flatMap AsciiFold.fold
  let spaced := ascii.map fun c ↦ if c = '/' then ' ' else c
  String.ofList (stripChars dotOrUnderscore ((joinWords spaced).filter filenameChar))

/-- A character of a Python identifier: a letter, a digit or `_`.  Beyond ASCII, whatever is no
white space. -/
def identifierChar (c : Char) : Bool :=
  c.isAlphanum || c == '_' || (128 ≤ c.toNat && !isspace c)

def IsIdentifier (s : String) : Prop := s ≠ "" ∧ ∀ c ∈ s.toList, identifierChar c = true

/-! ## Stripping -/

section Strip

variable {p : Char → Bool} {s : List Char}

theorem stripChars_eq_nil : stripChars p s = [] ↔ ∀ c ∈ s, p c = true := by
  unfold stripChars
  rw [List.rdropWhile_eq_nil_iff]
  constructor
  · intro h
    have hnil : s.dropWhile p = [] := by
      by_contra hne
      have hhead := List.head_dropWhile_not p hne
      rw [h _ (List.head_mem hne)] at hhead
      cases hhead
    exact List.dropWhile_eq_nil_iff.mp hnil
  · intro h
    rw [List.dropWhile_eq_nil_iff.mpr h]
    intro c hc
    cases hc

/-- Nothing is stripped from a string with other characters at both ends. -/
theorem stripChars_eq_self {first last : Char} {middle : List Char} (hfirst : p first = false)
    (hlast : p last = false) : stripChars p (first :: (middle ++ [last])) =
      first :: (middle ++ [last]) := by
  unfold stripChars
  rw [List.dropWhile_cons_of_neg (by simp [hfirst]), ← List.cons_append,
    List.rdropWhile_concat_neg _ _ _ (by simp [hlast])]

theorem stripChars_cons {first : Char} (hfirst : p first = false) (s : List Char) :
    ∃ rest, stripChars p (first :: s) = first :: rest := by
  unfold stripChars
  rw [List.dropWhile_cons_of_neg (by simp [hfirst])]
  obtain ⟨stripped, hprefix⟩ := List.rdropWhile_prefix p (first :: s)
  cases hkept : (first :: s).rdropWhile p with
  | nil =>
    have hall := List.rdropWhile_eq_nil_iff.mp hkept first List.mem_cons_self
    rw [hfirst] at hall
    cases hall
  | cons c rest =>
    rw [hkept] at hprefix
    exact ⟨rest, congrArg (· :: rest) (List.cons.inj hprefix).1⟩

/-- What only stands in front is stripped in front. -/
theorem stripChars_of_last {last : Char} (hlast : p last = false) :
    stripChars p (s ++ [last]) = (s ++ [last]).dropWhile p := by
  unfold stripChars
  rw [List.rdropWhile_eq_self_iff]
  intro hne
  have hsuffix : (s ++ [last]).dropWhile p <:+ s ++ [last] := List.dropWhile_suffix p
  rw [hsuffix.getLast hne, List.getLast_append_singleton]
  simp [hlast]

end Strip

theorem strStrip_ne_empty {s : String} (h : ∃ c ∈ s.toList, isspace c = false) :
    strStrip s ≠ "" := by
  intro hempty
  have hnil : stripChars isspace s.toList = [] := by
    have hlist := congrArg String.toList hempty
    unfold strStrip at hlist
    rw [String.toList_ofList] at hlist
    exact hlist
  obtain ⟨c, hc, hspace⟩ := h
  rw [stripChars_eq_nil.mp hnil c hc] at hspace
  cases hspace

/-- A string without white space is its own strip. -/
theorem strStrip_of_no_space {s : String} (h : ∀ c ∈ s.toList, isspace c = false) :
    strStrip s = s := by
  have hself : stripChars isspace s.toList = s.toList := by
    unfold stripChars
    have hdrop : s.toList.dropWhile isspace = s.toList := by
      rw [List.dropWhile_eq_self_iff]
      intro hlen
      simp [h _ (List.getElem_mem hlen)]
    rw [hdrop, List.rdropWhile_eq_self_iff]
    intro hne
    simp [h _ (List.getLast_mem hne)]
  unfold strStrip
  rw [hself, String.ofList_toList]

/-! ## Identifiers -/

section Identifier

theorem identifierChar_props {c : Char} (h : identifierChar c = true) :
    c ≠ '/' ∧ c ≠ '.' ∧ isspace c = false := by
  refine ⟨?_, ?_, ?_⟩
  · rintro rfl
    revert h
    decide
  · rintro rfl
    revert h
    decide
  · unfold identifierChar at h
    by_cases hascii : c.toNat < 128
    · -- an ASCII letter, digit or underscore is none of the white space below 128
      have hshort : c.isAlphanum = true ∨ c = '_' := by
        have hlarge : ¬128 ≤ c.toNat := by omega
        simpa [hlarge] using h
      rcases hshort with hc | rfl
      · simp only [Char.isAlphanum, Char.isAlpha, Char.isUpper, Char.isLower, Char.isDigit,
          Bool.or_eq_true, Bool.and_eq_true, decide_eq_true_eq] at hc
        simp only [isspace, spaceCode, List.mem_cons, List.not_mem_nil, or_false,
          Bool.or_eq_false_iff, Bool.and_eq_false_iff, decide_eq_false_iff_not]
        have hn : c.toNat = c.val.toNat := rfl
        simp only [UInt32.le_iff_toNat_le, hn] at hc hascii ⊢
        simp at hc
        omega
      · decide
    · have hno : c.isAlphanum = false := by
        simp only [Char.isAlphanum, Char.isAlpha, Char.isUpper, Char.isLower, Char.isDigit,
          Bool.or_eq_false_iff, Bool.and_eq_false_iff, decide_eq_false_iff_not]
        have hn : c.toNat = c.val.toNat := rfl
        simp only [UInt32.le_iff_toNat_le, hn] at hascii ⊢
        simp
        omega
      have hunderscore : c ≠ '_' := by
        rintro rfl
        exact hascii (by decide)
      have hlarge : 128 ≤ c.toNat := by omega
      simpa [hno, hunderscore, hlarge] using h

variable {name : String}

theorem IsIdentifier.strStrip_eq (h : IsIdentifier name) : strStrip name = name :=
  strStrip_of_no_space fun c hc ↦ (identifierChar_props (h.2 c hc)).2.2

/-- `tasks/<name>.wasm` is not changed by a strip, and its last component is `<name>.wasm`. -/
theorem strStrip_wasmPath (name : String) :
    strStrip ("tasks/" ++ name ++ ".wasm") = "tasks/" ++ name ++ ".wasm" := by
  have hlist : ("tasks/" ++ name ++ ".wasm").toList =
      't' :: (("asks/".toList ++ name.toList ++ ".was".toList) ++ ['m']) := by
    simp [String.toList_append]
  unfold strStrip
  rw [hlist, stripChars_eq_self (by decide) (by decide), ← hlist, String.ofList_toList]

theorem pathName_of_no_slash {s : String} (hs : ∀ c ∈ s.toList, c ≠ '/') (hne : s ≠ "")
    (hdot : s ≠ ".") : pathName s = s := by
  have hsingle : s.toList.splitOnP (· == '/') = [s.toList] := by
    apply List.splitOnP_eq_singleton
    intro c hc
    simp [hs c hc]
  have hnil : s.toList ≠ [] := by
    intro h
    exact hne (String.toList_inj.mp h)
  have hpoint : s.toList ≠ ['.'] := by
    intro h
    exact hdot (String.toList_inj.mp h)
  unfold pathName
  rw [hsingle]
  simp [hnil, hpoint]

theorem IsIdentifier.wasm_chars (h : IsIdentifier name) :
    ∀ c ∈ (name ++ ".wasm").toList, c ≠ '/' := by
  intro c hc
  rw [String.toList_append, List.mem_append] at hc
  rcases hc with hc | hc
  · exact (identifierChar_props (h.2 c hc)).1
  · rintro rfl
    revert hc
    decide

theorem IsIdentifier.pathName_wasm (h : IsIdentifier name) :
    pathName (name ++ ".wasm") = name ++ ".wasm" := by
  have hlen : 5 ≤ (name ++ ".wasm").length := by
    rw [String.length_append]
    have hwasm : ".wasm".length = 5 := by decide
    omega
  apply pathName_of_no_slash h.wasm_chars
  · intro hempty
    rw [hempty] at hlen
    exact absurd hlen (by decide)
  · intro hdot
    rw [hdot] at hlen
    exact absurd hlen (by decide)

theorem IsIdentifier.pathName_wasmPath (h : IsIdentifier name) :
    pathName ("tasks/" ++ name ++ ".wasm") = name ++ ".wasm" := by
  have hlist : ("tasks/" ++ name ++ ".wasm").toList =
      "tasks".toList ++ '/' :: (name ++ ".wasm").toList := by
    simp [String.toList_append]
  have hsplit : ("tasks/" ++ name ++ ".wasm").toList.splitOnP (· == '/') =
      ["tasks".toList, (name ++ ".wasm").toList] := by
    have hplain : ∀ c ∈ "tasks".toList, (c == '/') = false := by simp
    rw [hlist, List.splitOnP_append_cons_of_forall_mem hplain '/' (by decide),
      List.splitOnP_eq_singleton]
    intro c hc
    simp [h.wasm_chars c hc]
  have hlen : 5 ≤ (name ++ ".wasm").toList.length := by
    rw [String.toList_append, List.length_append]
    have hwasm : ".wasm".toList.length = 5 := by decide
    omega
  have hkeep : (name ++ ".wasm").toList ≠ [] ∧ (name ++ ".wasm").toList ≠ ['.'] := by
    constructor
    · intro hnil
      rw [hnil] at hlen
      exact absurd hlen (by decide)
    · intro hdot
      rw [hdot] at hlen
      exact absurd hlen (by decide)
  unfold pathName
  rw [hsplit, List.filter_cons_of_pos (by decide), List.filter_cons_of_pos (by simpa using hkeep)]
  simp

end Identifier

/-! ## ASCII identifiers -/

section Ascii

variable [AsciiFold] {name : String}

theorem secureFilename_ascii (h : IsIdentifier name) (hascii : ∀ c ∈ name.toList, c.toNat < 128) :
    secureFilename (name ++ ".wasm") =
      String.ofList ((name.toList ++ ".wasm".toList).dropWhile dotOrUnderscore) := by
  have hchars : ∀ c ∈ name.toList ++ ".wasm".toList,
      c.toNat < 128 ∧ c ≠ '/' ∧ isspace c = false ∧ filenameChar c = true := by
    intro c hc
    rcases List.mem_append.mp hc with hc | hc
    · have hid := h.2 c hc
      obtain ⟨hslash, -, hspace⟩ := identifierChar_props hid
      refine ⟨hascii c hc, hslash, hspace, ?_⟩
      have hlarge : ¬128 ≤ c.toNat := by
        have hlt := hascii c hc
        omega
      unfold identifierChar at hid
      unfold filenameChar
      rcases Bool.or_eq_true_iff.mp hid with hid | hid
      · rw [hid]
        rfl
      · simp [hlarge] at hid
    · have hwasm : ∀ c ∈ ".wasm".toList,
          c.toNat < 128 ∧ c ≠ '/' ∧ isspace c = false ∧ filenameChar c = true := by
        have hall : ".wasm".toList.all (fun c ↦ decide (c.toNat < 128 ∧ c ≠ '/' ∧
            isspace c = false ∧ filenameChar c = true)) = true := by
          decide
        exact fun c hc ↦ of_decide_eq_true (List.all_eq_true.mp hall c hc)
      exact hwasm c hc
  have hfold : (name ++ ".wasm").toList.flatMap AsciiFold.fold = name.toList ++ ".wasm".toList := by
    rw [String.toList_append]
    calc (name.toList ++ ".wasm".toList).flatMap AsciiFold.fold
        = (name.toList ++ ".wasm".toList).flatMap (fun c ↦ [c]) :=
          List.flatMap_congr fun c hc ↦ AsciiFold.fold_ascii c (hchars c hc).1
      _ = name.toList ++ ".wasm".toList := List.flatMap_singleton' _
  have hspaced : ((name.toList ++ ".wasm".toList).map fun c ↦ if c = '/' then ' ' else c) =
      name.toList ++ ".wasm".toList := by
    calc ((name.toList ++ ".wasm".toList).map fun c ↦ if c = '/' then ' ' else c)
        = (name.toList ++ ".wasm".toList).map id :=
          List.map_congr_left fun c hc ↦ if_neg (hchars c hc).2.1
      _ = name.toList ++ ".wasm".toList := List.map_id _
  have hwords : joinWords (name.toList ++ ".wasm".toList) = name.toList ++ ".wasm".toList := by
    have hsingle : (name.toList ++ ".wasm".toList).splitOnP isspace =
        [name.toList ++ ".wasm".toList] :=
      List.splitOnP_eq_singleton fun c hc ↦ (hchars c hc).2.2.1
    unfold joinWords
    rw [hsingle, List.filter_cons_of_pos (by simp), List.filter_nil]
    simp
  have hkept : (name.toList ++ ".wasm".toList).filter filenameChar =
      name.toList ++ ".wasm".toList :=
    List.filter_eq_self.mpr fun c hc ↦ (hchars c hc).2.2.2
  have hlast : name.toList ++ ".wasm".toList = (name.toList ++ ".was".toList) ++ ['m'] := by
    rw [List.append_assoc]
    rfl
  unfold secureFilename
  dsimp only
  rw [hfold, hspaced, hwords, hkept]
  rw [hlast, stripChars_of_last (by decide)]

end Ascii

end TandemAio
