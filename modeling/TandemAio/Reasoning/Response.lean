import TandemAio.Reasoning.Http

/-!
# HTTP/1.1 responses as bytes

The grammar of one final response, whose body ends where its framing says or where the connection
is closed, and where the blank line after a head stands.
-/

namespace Reasoning.Http

structure Response where
  status : Nat
  fields : List Field
  body : List UInt8
deriving DecidableEq

/-- The status of `HTTP/1.1 <three digits> <reason>`. -/
def statusLine (bytes : List UInt8) : Option Nat :=
  if bytes.take 9 = utf8 "HTTP/1.1 " ∧ bytes[12]? = some 32 then decimal ((bytes.drop 9).take 3)
  else none

/-- No body follows the head of an answer to HEAD, nor that of 204 and 304. -/
def bodiless (toHead : Bool) (status : Nat) : Bool := toHead || status == 204 || status == 304

/-- The body of a response with these fields, when the connection is closed after it. -/
def readResponseBody (fields : List Field) (rest : List UInt8) : Option (List UInt8) :=
  if fields.any (·.named "transfer-encoding") || fields.any (·.named "content-length") then
    readBody fields rest
  else some rest

/-- The bytes as exactly one final response. -/
def parseResponse (toHead : Bool) (bytes : List UInt8) : Option Response :=
  match headLines bytes.length bytes with
  | some (first :: lines, rest) =>
    match statusLine first, fieldLines lines with
    | some status, some fields =>
      if status < 200 then none
      else if bodiless toHead status then if rest = [] then some ⟨status, fields, []⟩ else none
      else (readResponseBody fields rest).map fun body ↦ ⟨status, fields, body⟩
    | _, _ => none
  | _ => none

/-! ## The blank line -/

/-- The end of a line, with an empty line after it. -/
def blankLine : List UInt8 := [13, 10, 13, 10]

/-- No CRLF stands in a line. -/
theorem takeLine_first {bytes line rest : List UInt8} (h : takeLine bytes = some (line, rest)) :
    ∀ k < line.length, (bytes.drop k).take 2 ≠ [13, 10] := by
  induction bytes generalizing line with
  | nil => cases h
  | cons b bytes ih =>
    cases bytes with
    | nil => cases h
    | cons c tail =>
      unfold takeLine at h
      split at h
      · cases h
        exact fun k hk ↦ absurd hk (Nat.not_lt_zero k)
      · rename_i hcr
        obtain ⟨⟨line', after⟩, hline, heq⟩ := Option.map_eq_some_iff.mp h
        cases heq
        intro k hk
        cases k with
        | zero =>
          intro hcrlf
          rw [List.drop_zero, List.take_succ_cons, List.take_succ_cons, List.take_zero] at hcrlf
          cases hcrlf
          exact hcr ⟨rfl, rfl⟩
        | succ k =>
          rw [List.drop_succ_cons]
          exact ih hline k (Nat.lt_of_succ_lt_succ hk)

theorem headLines_first {fuel : Nat} {bytes line rest : List UInt8} {lines : List (List UInt8)}
    (h : headLines fuel bytes = some (line :: lines, rest)) :
    ∃ fuel' after, line ≠ [] ∧ takeLine bytes = some (line, after) ∧
      headLines fuel' after = some (lines, rest) := by
  cases fuel with
  | zero => cases h
  | succ fuel =>
    unfold headLines at h
    split at h
    · cases h
    · cases h
    · rename_i line' after hne hline
      obtain ⟨⟨lines', rest'⟩, hrest, heq⟩ := Option.map_eq_some_iff.mp h
      cases heq
      exact ⟨fuel, after, fun hnil ↦ hne hnil, hline, hrest⟩

theorem headLines_nil {fuel : Nat} {bytes rest : List UInt8}
    (h : headLines fuel bytes = some ([], rest)) : bytes = 13 :: 10 :: rest := by
  cases fuel with
  | zero => cases h
  | succ fuel =>
    unfold headLines at h
    split at h
    · cases h
    · rename_i hline
      cases h
      exact eq_of_takeLine hline
    · obtain ⟨pair, -, heq⟩ := Option.map_eq_some_iff.mp h
      cases heq

/-- The head ends at the first blank line, and begins with the first of its lines. -/
theorem headLines_blank {fuel : Nat} {bytes line rest : List UInt8} {lines : List (List UInt8)}
    (h : headLines fuel bytes = some (line :: lines, rest)) :
    ∃ after, bytes = (line ++ after) ++ (blankLine ++ rest) ∧
      ∀ k < (line ++ after).length, (bytes.drop k).take 4 ≠ blankLine := by
  induction lines generalizing fuel bytes line with
  | nil =>
    obtain ⟨fuel', after, -, hline, hafter⟩ := headLines_first h
    have hbytes := eq_of_takeLine hline
    rw [headLines_nil hafter] at hbytes
    refine ⟨[], ?_, fun k hk hblank ↦ ?_⟩
    · rw [hbytes, List.append_nil]
      rfl
    · rw [List.append_nil] at hk
      apply takeLine_first hline k hk
      have htake := congrArg (List.take 2) hblank
      rwa [List.take_take] at htake
  | cons next lines ih =>
    obtain ⟨fuel', after, -, hline, hafter⟩ := headLines_first h
    obtain ⟨-, after', hne, hnext, -⟩ := headLines_first hafter
    obtain ⟨head, heq, hhead⟩ := ih hafter
    have hbytes := eq_of_takeLine hline
    have hdrop : ∀ k, bytes.drop (line.length + k) = (13 :: 10 :: after).drop k := by
      intro k
      rw [hbytes, List.drop_append]
      simp
    refine ⟨13 :: 10 :: (next ++ head), ?_, fun k hk hblank ↦ ?_⟩
    · rw [hbytes, heq]
      simp
    · have htake := congrArg (List.take 2) hblank
      rw [List.take_take] at htake
      rcases Nat.lt_or_ge k line.length with hin | hout
      · exact takeLine_first hline k hin htake
      · obtain ⟨k, rfl⟩ := Nat.exists_eq_add_of_le hout
        rw [hdrop] at hblank
        match k with
        | 0 =>
          -- the next line would be empty
          have hempty : after.take 2 = [13, 10] := by
            have hlast := congrArg (List.drop 2) hblank
            simpa [blankLine] using hlast
          have hpos : 0 < next.length := List.length_pos_iff.mpr hne
          exact takeLine_first hnext 0 hpos hempty
        | 1 =>
          have hfirst := congrArg List.head? hblank
          simp [blankLine] at hfirst
        | k + 2 =>
          rw [List.length_append, List.length_cons, List.length_cons] at hk
          exact hhead k (by omega) hblank

/-- Written lines are the lines joined by CRLF, and one more CRLF. -/
theorem writeLines_eq (line : List UInt8) (lines : List (List UInt8)) :
    writeLines (line :: lines) = [13, 10].intercalate (line :: lines) ++ [13, 10] := by
  induction lines generalizing line with
  | nil => simp [writeLines]
  | cons next lines ih =>
    have hrest := ih next
    unfold writeLines at hrest ⊢
    rw [List.flatMap_cons, hrest, List.intercalate_cons_of_ne_nil (List.cons_ne_nil next lines),
      List.append_assoc, List.append_assoc, List.append_assoc]

/-! ## Bodies -/

/-- The bytes after the head are the body, unless it is sent in chunks. -/
theorem readResponseBody_eq_iff {fields : List Field} {rest body : List UInt8}
    (h : readResponseBody fields rest = some body) :
    rest = body ↔ ∀ f ∈ fields, ¬f.named "transfer-encoding" := by
  constructor
  · rintro rfl f hf hcoding
    have hany : fields.any (·.named "transfer-encoding") = true :=
      List.any_eq_true.mpr ⟨f, hf, hcoding⟩
    unfold readResponseBody at h
    rw [hany, Bool.true_or, if_pos rfl] at h
    exact absurd (readBody_chunked hf hcoding h) (lt_irrefl _)
  · intro hnone
    have hfilter : fields.filter (·.named "transfer-encoding") = [] :=
      List.filter_eq_nil_iff.mpr hnone
    unfold readResponseBody at h
    split at h
    · unfold readBody at h
      rw [hfilter] at h
      dsimp only at h
      split at h
      · split at h
        · rename_i hnil
          cases h
          exact hnil
        · cases h
      · split at h
        · cases h
          rfl
        · cases h
      · cases h
    · cases h
      rfl

/-! ## Responses -/

theorem statusLine_write {digits : List UInt8} {status : Nat} (reason : List UInt8)
    (hlen : digits.length = 3) (h : decimal digits = some status) :
    statusLine (utf8 "HTTP/1.1 " ++ (digits ++ 32 :: reason)) = some status := by
  have hversion : (utf8 "HTTP/1.1 ").length = 9 := by decide +kernel
  have hdrop : (utf8 "HTTP/1.1 " ++ (digits ++ 32 :: reason)).drop 9 = digits ++ 32 :: reason :=
    List.drop_left' hversion
  have htake : (utf8 "HTTP/1.1 " ++ (digits ++ 32 :: reason)).take 9 = utf8 "HTTP/1.1 " :=
    List.take_left' hversion
  have hspace : (utf8 "HTTP/1.1 " ++ (digits ++ 32 :: reason))[12]? = some 32 := by
    rw [List.getElem?_append_right (by omega), List.getElem?_append_right (by omega), hversion,
      hlen]
    rfl
  unfold statusLine
  rw [if_pos ⟨htake, hspace⟩, hdrop, List.take_left' hlen, h]

theorem statusLine_spec {line : List UInt8} {status : Nat} (h : statusLine line = some status) :
    ∃ digits reason, line = utf8 "HTTP/1.1 " ++ (digits ++ 32 :: reason) ∧ digits.length = 3 ∧
      decimal digits = some status := by
  unfold statusLine at h
  split at h
  · rename_i hline
    obtain ⟨hversion, hspace⟩ := hline
    have hlen : 12 < line.length := by
      by_contra hle
      rw [List.getElem?_eq_none (Nat.le_of_not_lt hle)] at hspace
      cases hspace
    have hreason : line.drop 12 = 32 :: line.drop 13 := by
      rw [List.drop_eq_getElem_cons hlen]
      rw [List.getElem?_eq_getElem hlen] at hspace
      rw [Option.some_inj.mp hspace]
    have hrest : line.drop 9 = (line.drop 9).take 3 ++ line.drop 12 := by
      conv_lhs => rw [← List.take_append_drop 3 (line.drop 9), List.drop_drop]
    refine ⟨(line.drop 9).take 3, line.drop 13, ?_, ?_, h⟩
    · rw [← hreason, ← hrest, ← hversion, List.take_append_drop]
    · rw [List.length_take, List.length_drop]
      omega
  · cases h

/-- What a response is read from: a head that begins with its status line and ends at the first
blank line, and its body after that, unless the body is sent in chunks. -/
theorem parseResponse_spec {toHead : Bool} {bytes : List UInt8} {m : Response}
    (h : parseResponse toHead bytes = some m) :
    ∃ first after rest, bytes = (first ++ after) ++ (blankLine ++ rest) ∧
      (∀ k < (first ++ after).length, (bytes.drop k).take 4 ≠ blankLine) ∧
      statusLine first = some m.status ∧
      (rest = m.body ↔
        bodiless toHead m.status ∨ ∀ f ∈ m.fields, ¬f.named "transfer-encoding") := by
  unfold parseResponse at h
  split at h
  · rename_i first lines rest hhead
    obtain ⟨after, hbytes, hblank⟩ := headLines_blank hhead
    split at h
    · rename_i status fields hstatus hfields
      split at h
      · cases h
      · split at h
        · rename_i hbodiless
          split at h
          · rename_i hrest
            cases h
            exact ⟨first, after, rest, hbytes, hblank, hstatus,
              iff_of_true hrest (Or.inl hbodiless)⟩
          · cases h
        · rename_i hbody
          obtain ⟨body, hread, heq⟩ := Option.map_eq_some_iff.mp h
          cases heq
          refine ⟨first, after, rest, hbytes, hblank, hstatus, ?_⟩
          rw [readResponseBody_eq_iff hread, or_iff_right hbody]
    · cases h
  · cases h

end Reasoning.Http
