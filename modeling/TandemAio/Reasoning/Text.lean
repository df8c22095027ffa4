import TandemAio.Reasoning.Percent

/-!
# Text in UTF-8

Decoding undoes encoding, an ASCII byte is decoded on its own wherever it stands, and a text is cut
at CRLF.
-/

namespace Reasoning

/-! ## ASCII bytes between others -/

theorem continuation_append_low (n : Nat) {lo : UInt8} (hi : UInt8) (bytes : List UInt8)
    {b : UInt8} (rest : List UInt8) (hlo : 128 ≤ lo) (hb : b < 128) :
    continuation n lo hi (bytes ++ b :: rest) = continuation n lo hi bytes := by
  induction bytes generalizing n lo hi with
  | nil =>
    cases n with
    | zero => rfl
    | succ n =>
      have hstop : ¬(lo ≤ b ∧ b ≤ hi) := fun h ↦
        absurd (UInt8.le_trans hlo h.1) (UInt8.not_le.mpr hb)
      rw [List.nil_append, continuation, if_neg hstop]
      rfl
  | cons c bytes ih =>
    cases n with
    | zero => rfl
    | succ n =>
      rw [List.cons_append, continuation, continuation]
      split
      · rw [ih n _ (by decide)]
      · rfl

theorem decodeFirst_append_low (c : UInt8) (bytes : List UInt8) {b : UInt8} (rest : List UInt8)
    (hb : b < 128) : decodeFirst c (bytes ++ b :: rest) = decodeFirst c bytes := by
  unfold decodeFirst
  split
  · rfl
  · cases hlead : leadBounds c with
    | none => rfl
    | some bounds =>
      obtain ⟨n, lo, hi⟩ := bounds
      dsimp only
      rw [continuation_append_low n hi bytes rest (leadBounds_some hlead).2 hb]

/-- A character takes no more bytes than there are. -/
theorem decodeFirst_le (c : UInt8) (bytes : List UInt8) :
    (decodeFirst c bytes).2 ≤ bytes.length := by
  unfold decodeFirst
  split
  · exact Nat.zero_le _
  · cases leadBounds c with
    | none => exact Nat.zero_le _
    | some bounds =>
      obtain ⟨n, lo, hi⟩ := bounds
      have hle := (continuation_initial n lo hi bytes).length_le
      dsimp only
      split
      · rename_i hlen
        dsimp only
        omega
      · exact hle

/-- A byte of ASCII stands for its character, and ends the one before it. -/
theorem decodeFrom_append_low (bytes : List UInt8) {b : UInt8} (rest : List UInt8) (hb : b < 128) :
    decodeFrom 0 (bytes ++ b :: rest) =
      decodeFrom 0 bytes ++ latin1Char b :: decodeFrom 0 rest := by
  induction hn : bytes.length using Nat.strong_induction_on generalizing bytes with
  | h n ih =>
    cases bytes with
    | nil =>
      have hfirst : decodeFirst b rest = (latin1Char b, 0) := by
        unfold decodeFirst
        rw [if_pos hb]
      rw [List.nil_append, decodeFrom_cons, hfirst]
      rfl
    | cons c bytes =>
      have hle := decodeFirst_le c bytes
      have hlen : (bytes.drop (decodeFirst c bytes).2).length < n := by
        rw [← hn, List.length_drop, List.length_cons]
        omega
      rw [List.cons_append, decodeFrom_cons, decodeFrom_cons,
        decodeFirst_append_low c bytes rest hb, List.drop_append_of_le_length hle,
        ih _ hlen _ rfl]
      rfl

theorem decodeFrom_append_ascii (bytes : List UInt8) {low : List UInt8} (rest : List UInt8)
    (hne : low ≠ []) (hlow : Ascii low) :
    decodeFrom 0 (bytes ++ (low ++ rest)) =
      decodeFrom 0 bytes ++ (low.map latin1Char ++ decodeFrom 0 rest) := by
  induction low generalizing bytes with
  | nil => exact absurd rfl hne
  | cons b low ih =>
    have hb : b < 128 := hlow b List.mem_cons_self
    rw [List.cons_append, decodeFrom_append_low bytes _ hb]
    by_cases hnil : low = []
    · rw [hnil]
      rfl
    · have hrest := ih [] hnil fun x hx ↦ hlow x (List.mem_cons_of_mem b hx)
      rw [List.nil_append] at hrest
      rw [hrest]
      rfl

theorem mem_decodeFrom {bytes : List UInt8} {b : UInt8} (hb : b < 128) (h : b ∈ bytes) :
    latin1Char b ∈ decodeFrom 0 bytes := by
  obtain ⟨before, rest, rfl⟩ := List.append_of_mem h
  rw [decodeFrom_append_low before rest hb]
  exact List.mem_append_right _ List.mem_cons_self

/-! ## Bytes that are no ASCII -/

theorem continuation_head {n : Nat} {lo hi x : UInt8} {rest tail : List UInt8}
    (h : continuation (n + 1) lo hi rest = x :: tail) : lo ≤ x ∧ x ≤ hi := by
  cases rest with
  | nil => cases h
  | cons b rest =>
    rw [continuation] at h
    split at h
    · rename_i hb
      cases h
      exact hb
    · cases h

/-- The lead bytes of two, three and four, with what the second byte has to be. -/
theorem leadBounds_cases {b lo hi : UInt8} {n : Nat} (h : leadBounds b = some (n, lo, hi)) :
    (128 ≤ lo.toNat ∧ hi.toNat ≤ 191) ∧
    ((n = 1 ∧ 194 ≤ b.toNat ∧ b.toNat ≤ 223) ∨
    (n = 2 ∧ 224 ≤ b.toNat ∧ b.toNat ≤ 239 ∧ (b.toNat ≠ 224 ∨ 160 ≤ lo.toNat) ∧
      (b.toNat ≠ 237 ∨ hi.toNat ≤ 159)) ∨
    (n = 3 ∧ 240 ≤ b.toNat ∧ b.toNat ≤ 244 ∧ (b.toNat ≠ 240 ∨ 144 ≤ lo.toNat) ∧
      (b.toNat ≠ 244 ∨ hi.toNat ≤ 143))) := by
  unfold leadBounds at h
  simp only [UInt8.le_iff_toNat_le, ← UInt8.toNat_inj, UInt8.reduceToNat] at h
  split_ifs at h
  all_goals
    cases h
    simp only [UInt8.reduceToNat, true_and]
    omega

/-- The code point of a well-formed sequence of more than one byte. -/
theorem codePoint_spec {b lo hi : UInt8} {n : Nat} {rest : List UInt8}
    (hlead : leadBounds b = some (n, lo, hi)) (hlen : (continuation n lo hi rest).length = n) :
    128 ≤ codePoint b (continuation n lo hi rest) ∧
      (codePoint b (continuation n lo hi rest)).isValidChar := by
  generalize htail : continuation n lo hi rest = tail at hlen
  obtain ⟨⟨hlow, hhigh⟩, hcases⟩ := leadBounds_cases hlead
  unfold Nat.isValidChar
  rcases hcases with ⟨rfl, hb⟩ | ⟨rfl, hb⟩ | ⟨rfl, hb⟩
  · obtain ⟨x, rfl⟩ := List.length_eq_one_iff.mp hlen
    have hpoint : codePoint b [x] = b.toNat % 32 * 64 + x.toNat % 64 := rfl
    omega
  · obtain ⟨x, y, rfl⟩ := List.length_eq_two.mp hlen
    have hpoint : codePoint b [x, y] =
        (b.toNat % 16 * 64 + x.toNat % 64) * 64 + y.toNat % 64 := rfl
    obtain ⟨hlo, hhi⟩ := continuation_head htail
    rw [UInt8.le_iff_toNat_le] at hlo hhi
    omega
  · obtain ⟨x, y, z, rfl⟩ := List.length_eq_three.mp hlen
    have hpoint : codePoint b [x, y, z] =
        ((b.toNat % 8 * 64 + x.toNat % 64) * 64 + y.toNat % 64) * 64 + z.toNat % 64 := rfl
    obtain ⟨hlo, hhi⟩ := continuation_head htail
    rw [UInt8.le_iff_toNat_le] at hlo hhi
    omega

theorem toNat_latin1Char (b : UInt8) : (latin1Char b).toNat = b.toNat := by
  apply forall_byte (P := fun b ↦ (latin1Char b).toNat = b.toNat)
  decide +kernel

theorem toNat_charOfNat {n : Nat} (h : n.isValidChar) : (Char.ofNat n).toNat = n := by
  unfold Char.ofNat
  rw [dif_pos h]
  rfl

theorem decodeFirst_high {b : UInt8} (rest : List UInt8) (hb : 128 ≤ b) :
    128 ≤ (decodeFirst b rest).1.toNat := by
  have hrep : 128 ≤ ('\uFFFD' : Char).toNat := by decide
  unfold decodeFirst
  rw [if_neg (UInt8.not_lt.mpr hb)]
  cases hlead : leadBounds b with
  | none => exact hrep
  | some bounds =>
    obtain ⟨n, lo, hi⟩ := bounds
    dsimp only
    split
    · rename_i hlen
      obtain ⟨hle, hvalid⟩ := codePoint_spec hlead hlen
      dsimp only
      rw [toNat_charOfNat hvalid]
      exact hle
    · exact hrep

/-- A character of ASCII is decoded from its own byte. -/
theorem mem_of_mem_decodeFrom {bytes : List UInt8} {b : UInt8} (hb : b < 128)
    (h : latin1Char b ∈ decodeFrom 0 bytes) : b ∈ bytes := by
  induction hn : bytes.length using Nat.strong_induction_on generalizing bytes with
  | h n ih =>
    cases bytes with
    | nil => exact absurd h List.not_mem_nil
    | cons c bytes =>
      have hlen : (bytes.drop (decodeFirst c bytes).2).length < n := by
        rw [← hn, List.length_drop, List.length_cons]
        omega
      rw [decodeFrom_cons, List.mem_cons] at h
      rcases h with h | h
      · rcases UInt8.lt_or_le c 128 with hc | hc
        · have hfirst : decodeFirst c bytes = (latin1Char c, 0) := by
            unfold decodeFirst
            rw [if_pos hc]
          rw [hfirst] at h
          have hbyte : b = c := by
            rw [← UInt8.toNat_inj, ← toNat_latin1Char b, h, toNat_latin1Char]
          rw [hbyte]
          exact List.mem_cons_self
        · have hhigh := decodeFirst_high bytes hc
          rw [← h, toNat_latin1Char] at hhigh
          rw [UInt8.lt_iff_toNat_lt] at hb
          exact absurd hhigh (Nat.not_le.mpr hb)
      · have hmem := ih _ hlen h rfl
        exact List.mem_cons_of_mem c (List.mem_of_mem_drop hmem)

/-! ## Decoding what was encoded -/

theorem continuation_append {lo hi : UInt8} {first : UInt8} {tail : List UInt8}
    (rest : List UInt8) (hfirst : lo ≤ first ∧ first ≤ hi)
    (htail : ∀ b ∈ tail, 0x80 ≤ b ∧ b ≤ 0xBF) :
    continuation (tail.length + 1) lo hi (first :: tail ++ rest) = first :: tail := by
  induction tail generalizing lo hi first with
  | nil =>
    rw [List.length_nil, List.cons_append, continuation, if_pos hfirst]
    cases rest <;> rfl
  | cons b tail ih =>
    rw [List.length_cons, List.cons_append, continuation, if_pos hfirst,
      ih (htail b List.mem_cons_self) fun c hc ↦ htail c (List.mem_cons_of_mem b hc)]

/-- A lead byte with the bytes that it asks for. -/
theorem decodeFrom_append {b lo hi first : UInt8} {tail : List UInt8} (rest : List UInt8)
    (hlead : leadBounds b = some (tail.length + 1, lo, hi)) (hb : 128 ≤ b)
    (hfirst : lo ≤ first ∧ first ≤ hi) (htail : ∀ b ∈ tail, 0x80 ≤ b ∧ b ≤ 0xBF) :
    decodeFrom 0 (b :: first :: tail ++ rest) =
      Char.ofNat (codePoint b (first :: tail)) :: decodeFrom 0 rest := by
  have hcontinuation := continuation_append rest hfirst htail
  have hdecode : decodeFirst b (first :: tail ++ rest) =
      (Char.ofNat (codePoint b (first :: tail)), (first :: tail).length) := by
    unfold decodeFirst
    rw [if_neg (UInt8.not_lt.mpr hb), hlead]
    dsimp only
    rw [hcontinuation, if_pos (List.length_cons)]
    rfl
  rw [List.cons_append, decodeFrom_cons, hdecode, List.drop_left]

theorem toNat_ofNat_of_lt {n : Nat} (h : n < 256) : (UInt8.ofNat n).toNat = n := by
  rw [UInt8.toNat_ofNat']
  omega

/-- A lead byte, by its number. -/
theorem leadBounds_ofNat {n : Nat} (hlo : 194 ≤ n) (hhi : n ≤ 244) :
    leadBounds (UInt8.ofNat n) =
      if n ≤ 223 then some (1, 0x80, 0xBF)
      else if n = 224 then some (2, 0xA0, 0xBF)
      else if n = 237 then some (2, 0x80, 0x9F)
      else if n ≤ 239 then some (2, 0x80, 0xBF)
      else if n = 240 then some (3, 0x90, 0xBF)
      else if n ≤ 243 then some (3, 0x80, 0xBF)
      else some (3, 0x80, 0x8F) := by
  revert n
  decide +kernel

/-- The bytes after the lead byte, by their number. -/
theorem continuation_ofNat {lo hi : UInt8} {n : Nat} (hlo : lo.toNat ≤ n) (hhi : n ≤ hi.toNat) :
    lo ≤ UInt8.ofNat n ∧ UInt8.ofNat n ≤ hi := by
  have hlt := hi.toNat_lt
  rw [UInt8.le_iff_toNat_le, UInt8.le_iff_toNat_le, toNat_ofNat_of_lt (by omega)]
  exact ⟨hlo, hhi⟩

theorem high_ofNat {n : Nat} (hlo : 128 ≤ n) (hhi : n < 256) : 128 ≤ UInt8.ofNat n := by
  rw [UInt8.le_iff_toNat_le, toNat_ofNat_of_lt hhi]
  exact hlo

/-- The byte of the last six bits of `n`. -/
theorem continuation_mod (n : Nat) :
    0x80 ≤ UInt8.ofNat (n % 64 + 128) ∧ UInt8.ofNat (n % 64 + 128) ≤ 0xBF :=
  continuation_ofNat (by simp) (by simp; omega)

theorem decodeFrom_two {n : Nat} (hlo : 127 < n) (hhi : n ≤ 2047) (rest : List UInt8) :
    decodeFrom 0 (UInt8.ofNat (n / 64 + 192) :: UInt8.ofNat (n % 64 + 128) :: rest) =
      Char.ofNat n :: decodeFrom 0 rest := by
  have hlead : leadBounds (UInt8.ofNat (n / 64 + 192)) = some (1, 0x80, 0xBF) := by
    rw [leadBounds_ofNat (by omega) (by omega), if_pos (by omega)]
  have hpoint : codePoint (UInt8.ofNat (n / 64 + 192)) [UInt8.ofNat (n % 64 + 128)] = n := by
    show (UInt8.ofNat (n / 64 + 192)).toNat % 32 * 64 +
      (UInt8.ofNat (n % 64 + 128)).toNat % 64 = n
    rw [toNat_ofNat_of_lt (by omega), toNat_ofNat_of_lt (by omega)]
    omega
  have hhigh : 128 ≤ UInt8.ofNat (n / 64 + 192) := high_ofNat (by omega) (by omega)
  have hnone : ∀ b ∈ ([] : List UInt8), 0x80 ≤ b ∧ b ≤ 0xBF :=
    fun b hb ↦ absurd hb List.not_mem_nil
  have hdecode := decodeFrom_append rest hlead hhigh (continuation_mod n) hnone
  rw [hpoint] at hdecode
  exact hdecode

theorem decodeFrom_three {n : Nat} (hlo : 2047 < n) (hhi : n ≤ 65535)
    (hvalid : n < 0xd800 ∨ 0xdfff < n) (rest : List UInt8) :
    decodeFrom 0 (UInt8.ofNat (n / 4096 + 224) :: UInt8.ofNat (n / 64 % 64 + 128) ::
      UInt8.ofNat (n % 64 + 128) :: rest) = Char.ofNat n :: decodeFrom 0 rest := by
  have hfirst : ∃ lo hi, leadBounds (UInt8.ofNat (n / 4096 + 224)) = some (2, lo, hi) ∧
      lo ≤ UInt8.ofNat (n / 64 % 64 + 128) ∧ UInt8.ofNat (n / 64 % 64 + 128) ≤ hi := by
    rw [leadBounds_ofNat (by omega) (by omega), if_neg (by omega)]
    split_ifs
    · exact ⟨_, _, rfl, continuation_ofNat (by simp; omega) (by simp; omega)⟩
    · exact ⟨_, _, rfl, continuation_ofNat (by simp) (by simp; omega)⟩
    · exact ⟨_, _, rfl, continuation_mod _⟩
    · omega
    · omega
    · omega
  obtain ⟨lo, hi, hlead, hbounds⟩ := hfirst
  have hpoint : codePoint (UInt8.ofNat (n / 4096 + 224))
      [UInt8.ofNat (n / 64 % 64 + 128), UInt8.ofNat (n % 64 + 128)] = n := by
    show ((UInt8.ofNat (n / 4096 + 224)).toNat % 16 * 64 +
      (UInt8.ofNat (n / 64 % 64 + 128)).toNat % 64) * 64 +
        (UInt8.ofNat (n % 64 + 128)).toNat % 64 = n
    rw [toNat_ofNat_of_lt (by omega), toNat_ofNat_of_lt (by omega),
      toNat_ofNat_of_lt (by omega)]
    omega
  have hhigh : 128 ≤ UInt8.ofNat (n / 4096 + 224) := high_ofNat (by omega) (by omega)
  have hlast : ∀ b ∈ [UInt8.ofNat (n % 64 + 128)], 0x80 ≤ b ∧ b ≤ 0xBF :=
    List.forall_mem_singleton.mpr (continuation_mod n)
  have hdecode := decodeFrom_append rest hlead hhigh hbounds hlast
  rw [hpoint] at hdecode
  exact hdecode

theorem decodeFrom_four {n : Nat} (hlo : 65535 < n) (hhi : n < 0x110000) (rest : List UInt8) :
    decodeFrom 0 (UInt8.ofNat (n / 262144 + 240) :: UInt8.ofNat (n / 4096 % 64 + 128) ::
      UInt8.ofNat (n / 64 % 64 + 128) :: UInt8.ofNat (n % 64 + 128) :: rest) =
      Char.ofNat n :: decodeFrom 0 rest := by
  have hfirst : ∃ lo hi, leadBounds (UInt8.ofNat (n / 262144 + 240)) = some (3, lo, hi) ∧
      lo ≤ UInt8.ofNat (n / 4096 % 64 + 128) ∧ UInt8.ofNat (n / 4096 % 64 + 128) ≤ hi := by
    rw [leadBounds_ofNat (by omega) (by omega), if_neg (by omega), if_neg (by omega),
      if_neg (by omega), if_neg (by omega)]
    split_ifs
    · exact ⟨_, _, rfl, continuation_ofNat (by simp; omega) (by simp; omega)⟩
    · exact ⟨_, _, rfl, continuation_mod _⟩
    · exact ⟨_, _, rfl, continuation_ofNat (by simp) (by simp; omega)⟩
  obtain ⟨lo, hi, hlead, hbounds⟩ := hfirst
  have hpoint : codePoint (UInt8.ofNat (n / 262144 + 240)) [UInt8.ofNat (n / 4096 % 64 + 128),
      UInt8.ofNat (n / 64 % 64 + 128), UInt8.ofNat (n % 64 + 128)] = n := by
    show (((UInt8.ofNat (n / 262144 + 240)).toNat % 8 * 64 +
      (UInt8.ofNat (n / 4096 % 64 + 128)).toNat % 64) * 64 +
        (UInt8.ofNat (n / 64 % 64 + 128)).toNat % 64) * 64 +
          (UInt8.ofNat (n % 64 + 128)).toNat % 64 = n
    rw [toNat_ofNat_of_lt (by omega), toNat_ofNat_of_lt (by omega),
      toNat_ofNat_of_lt (by omega), toNat_ofNat_of_lt (by omega)]
    omega
  have hhigh : 128 ≤ UInt8.ofNat (n / 262144 + 240) := high_ofNat (by omega) (by omega)
  have hlast : ∀ b ∈ [UInt8.ofNat (n / 64 % 64 + 128), UInt8.ofNat (n % 64 + 128)],
      0x80 ≤ b ∧ b ≤ 0xBF :=
    List.forall_mem_cons.mpr
      ⟨continuation_mod _, List.forall_mem_singleton.mpr (continuation_mod n)⟩
  have hdecode := decodeFrom_append rest hlead hhigh hbounds hlast
  rw [hpoint] at hdecode
  exact hdecode

/-- What a character is encoded as is decoded to the character. -/
theorem decodeFrom_utf8EncodeChar (c : Char) (rest : List UInt8) :
    decodeFrom 0 (String.utf8EncodeChar c ++ rest) = c :: decodeFrom 0 rest := by
  have hvalid : c.val.toNat < 0xd800 ∨ 0xdfff < c.val.toNat ∧ c.val.toNat < 0x110000 := c.valid
  have hchar : Char.ofNat c.val.toNat = c := Char.ofNat_toNat c
  fun_cases String.utf8EncodeChar c with
  | case1 v h =>
    have hlow : UInt8.ofNat v < 128 := by
      rw [UInt8.lt_iff_toNat_lt, toNat_ofNat_of_lt (by omega)]
      exact Nat.lt_succ_of_le h
    have hc : latin1Char (UInt8.ofNat v) = c := by
      rw [latin1Char, toNat_ofNat_of_lt (by omega), hchar]
    have happend := decodeFrom_append_low [] rest hlow
    rw [hc] at happend
    exact happend
  | case2 v h₁ h₂ =>
    have hb : v / 64 % 32 + 192 = v / 64 + 192 := by omega
    rw [hb]
    exact (decodeFrom_two (by omega) h₂ rest).trans (by rw [hchar])
  | case3 v h₁ h₂ h₃ =>
    have hb : v / 4096 % 16 + 224 = v / 4096 + 224 := by omega
    rw [hb]
    exact (decodeFrom_three (by omega) h₃ (by omega) rest).trans (by rw [hchar])
  | case4 v h₁ h₂ h₃ =>
    have hb : v / 262144 % 8 + 240 = v / 262144 + 240 := by omega
    rw [hb]
    exact (decodeFrom_four (by omega) (by omega) rest).trans (by rw [hchar])

theorem decodeFrom_utf8Chars (cs : List Char) : decodeFrom 0 (utf8Chars cs) = cs := by
  induction cs with
  | nil => rfl
  | cons c cs ih => rw [utf8Chars_cons, decodeFrom_utf8EncodeChar, ih]

/-- `text.split("\r\n")` -/
def splitCrlf : List Char → List (List Char)
  | [] => [[]]
  | '\r' :: '\n' :: rest => [] :: splitCrlf rest
  | c :: rest =>
    match splitCrlf rest with
    | [] => [[c]]
    | line :: lines => (c :: line) :: lines

theorem splitCrlf_crlf (rest : List Char) :
    splitCrlf ('\r' :: '\n' :: rest) = [] :: splitCrlf rest := by
  rw [splitCrlf]

theorem splitCrlf_cons {c : Char} (hc : c ≠ '\r') (text : List Char) :
    splitCrlf (c :: text) = match splitCrlf text with
      | [] => [[c]]
      | line :: lines => (c :: line) :: lines := by
  rw [splitCrlf]
  exact fun rest h _ ↦ hc h

/-- What stands before the first carriage return begins the first line. -/
theorem splitCrlf_append {text : List Char} (h : '\r' ∉ text) (rest : List Char) :
    ∃ line lines, splitCrlf rest = line :: lines ∧
      splitCrlf (text ++ rest) = (text ++ line) :: lines := by
  induction text with
  | nil =>
    have hne : splitCrlf rest ≠ [] := by
      fun_cases splitCrlf rest <;> simp_all
    obtain ⟨line, lines, heq⟩ := List.exists_cons_of_ne_nil hne
    exact ⟨line, lines, heq, heq⟩
  | cons c text ih =>
    rw [List.mem_cons, not_or] at h
    obtain ⟨line, lines, heq, happend⟩ := ih h.2
    refine ⟨line, lines, heq, ?_⟩
    rw [List.cons_append, splitCrlf_cons (Ne.symm h.1), happend]
    rfl

/-- Lines that are joined are split again. -/
theorem splitCrlf_intercalate {lines : List (List Char)} (hne : lines ≠ [])
    (h : ∀ line ∈ lines, '\r' ∉ line) :
    splitCrlf (['\r', '\n'].intercalate lines) = lines := by
  induction lines with
  | nil => exact absurd rfl hne
  | cons line lines ih =>
    have hline := h line List.mem_cons_self
    by_cases hlast : lines = []
    · obtain ⟨first, others, heq, happend⟩ := splitCrlf_append hline []
      cases heq
      rw [List.append_nil] at happend
      rw [hlast, List.intercalate_singleton, happend]
    · have hrest := ih hlast fun l hl ↦ h l (List.mem_cons_of_mem line hl)
      rw [List.intercalate_cons_of_ne_nil hlast, List.append_assoc]
      obtain ⟨first, others, heq, happend⟩ := splitCrlf_append hline
        (['\r', '\n'] ++ ['\r', '\n'].intercalate lines)
      rw [happend]
      rw [List.cons_append, List.cons_append, List.nil_append, splitCrlf_crlf, hrest] at heq
      cases heq
      rw [List.append_nil]

/-- Lines of bytes are decoded one by one. -/
theorem decodeFrom_intercalate (lines : List (List UInt8)) :
    decodeFrom 0 ([13, 10].intercalate lines) =
      ['\r', '\n'].intercalate (lines.map (decodeFrom 0)) := by
  induction lines with
  | nil => rfl
  | cons line lines ih =>
    by_cases hlast : lines = []
    · rw [hlast]
      simp
    · have hmap : lines.map (decodeFrom 0) ≠ [] := fun h ↦ hlast (List.map_eq_nil_iff.mp h)
      have hcrlf : Ascii [13, 10] := by
        intro b hb
        simp only [List.mem_cons, List.not_mem_nil, or_false] at hb
        rcases hb with rfl | rfl <;> decide
      rw [List.intercalate_cons_of_ne_nil hlast, List.map_cons,
        List.intercalate_cons_of_ne_nil hmap, List.append_assoc,
        decodeFrom_append_ascii line _ (by simp) hcrlf, ih, List.append_assoc]
      rfl

end Reasoning
