import Mathlib.Data.List.Infix

/-!
# Glob-style patterns

The patterns of `SCAN .. MATCH`: `*`, `?`, `[..]`, and `\` to escape.
-/

namespace Reasoning

/-- One item of a pattern. -/
inductive Glob
  | char (c : Char)
  | anyChar
  | anyChars
  | set (negated : Bool) (ranges : List (Char × Char))

namespace Glob

/-- The items of a pattern. The first argument is the set that is being read. -/
def parse : Option (Bool × List (Char × Char)) → List Char → List Glob
  | none, [] => []
  | none, '*' :: p => anyChars :: parse none p
  | none, '?' :: p => anyChar :: parse none p
  | none, '[' :: '^' :: p => parse (some (true, [])) p
  | none, '[' :: p => parse (some (false, [])) p
  | none, '\\' :: c :: p => char c :: parse none p
  | none, c :: p => char c :: parse none p
  | some (negated, ranges), [] => [set negated ranges]
  | some (negated, ranges), '\\' :: c :: p => parse (some (negated, (c, c) :: ranges)) p
  | some (negated, ranges), ']' :: p => set negated ranges :: parse none p
  | some (negated, ranges), a :: '-' :: b :: p =>
    parse (some (negated, (a, b) :: ranges)) p
  | some (negated, ranges), c :: p => parse (some (negated, (c, c) :: ranges)) p

/-- Whether the item accepts the character. The ends of a range may be in either order. -/
def accepts : Glob → Char → Bool
  | char c, d => c == d
  | anyChar, _ => true
  | anyChars, _ => true
  | set negated ranges, d =>
    (ranges.any fun (a, b) ↦ a ≤ d && d ≤ b || b ≤ d && d ≤ a) != negated

def isMatch : List Glob → List Char → Bool
  | [], s => s.isEmpty
  | anyChars :: p, s => s.tails.any (isMatch p)
  | _ :: _, [] => false
  | g :: p, c :: s => g.accepts c && isMatch p s

end Glob

/-- `MATCH pattern` -/
def globMatch (pattern s : String) : Bool := Glob.isMatch (Glob.parse none pattern.toList) s.toList

namespace Glob

/-- A character that stands for itself. -/
def plain (c : Char) : Bool := c != '*' && c != '?' && c != '[' && c != '\\'

theorem parse_cons {c : Char} {p : List Char} (hc : plain c = true) :
    parse none (c :: p) = char c :: parse none p := by
  have hne : c ≠ '*' ∧ c ≠ '?' ∧ c ≠ '[' ∧ c ≠ '\\' := by
    unfold plain at hc
    simpa [and_assoc] using hc
  obtain ⟨hstar, hmark, hset, hescape⟩ := hne
  rw [parse]
  · exact hstar
  · exact hmark
  · exact fun _ h _ ↦ hset h
  · exact hset
  · exact fun _ _ h _ ↦ hescape h

theorem parse_append {l p : List Char} (hl : ∀ c ∈ l, plain c = true) :
    parse none (l ++ p) = l.map char ++ parse none p := by
  induction l with
  | nil => rfl
  | cons c l ih =>
    have htail : ∀ d ∈ l, plain d = true := fun d hd ↦ hl d (List.mem_cons_of_mem c hd)
    rw [List.cons_append, parse_cons (hl c List.mem_cons_self), ih htail]
    rfl

theorem isMatch_chars {l s : List Char} {p : List Glob} :
    isMatch (l.map char ++ p) s = true ↔ ∃ t, s = l ++ t ∧ isMatch p t = true := by
  induction l generalizing s with
  | nil => simp
  | cons c l ih =>
    cases s with
    | nil => simp [isMatch]
    | cons d s =>
      rw [List.map_cons, List.cons_append, isMatch, Bool.and_eq_true, ih, accepts, beq_iff_eq]
      · constructor
        · rintro ⟨rfl, t, rfl, ht⟩
          exact ⟨t, rfl, ht⟩
        · rintro ⟨t, hcons, ht⟩
          rw [List.cons_append] at hcons
          injection hcons with hhead htail
          exact ⟨hhead.symm, t, htail, ht⟩
      · rintro ⟨⟩

theorem isMatch_anyChars (s : List Char) : isMatch [anyChars] s = true := by
  rw [isMatch, List.any_eq_true]
  exact ⟨[], (List.mem_tails _ _).mpr (List.nil_suffix), rfl⟩

end Glob

/-- A plain text followed by `*` matches what begins with the text. -/
theorem globMatch_prefixed {l : List Char} {pattern s : String}
    (hpattern : pattern.toList = l ++ ['*']) (hl : ∀ c ∈ l, Glob.plain c = true) :
    globMatch pattern s = true ↔ l <+: s.toList := by
  have hstar : Glob.parse none ['*'] = [Glob.anyChars] := rfl
  unfold globMatch
  rw [hpattern, Glob.parse_append hl, hstar, Glob.isMatch_chars]
  constructor
  · rintro ⟨t, ht, -⟩
    exact ⟨t, ht.symm⟩
  · rintro ⟨t, ht⟩
    exact ⟨t, ht.symm, Glob.isMatch_anyChars t⟩

end Reasoning
