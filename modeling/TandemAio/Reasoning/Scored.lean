import Mathlib.Data.Finset.Card
import Mathlib.Data.List.Sort

/-!
# Scored sets, and filling a set up

A set whose elements each have one score, and the choice of new elements from an ordered list until
a set has a given size.
-/

namespace Reasoning

variable {α σ : Type}

/-- A set of elements, each with one score. -/
structure Scored (α σ : Type) where
  entries : List (α × σ)
  nodup : (entries.map Prod.fst).Nodup

namespace Scored

def empty : Scored α σ := ⟨[], List.nodup_nil⟩

def members (z : Scored α σ) : List α := z.entries.map Prod.fst

/-- The entries that pass a test. -/
def keep (z : Scored α σ) (p : α × σ → Bool) : Scored α σ where
  entries := z.entries.filter p
  nodup := z.nodup.sublist (List.filter_sublist.map Prod.fst)

variable {a b : α} {x : σ} {z : Scored α σ}

theorem members_nodup (z : Scored α σ) : z.members.Nodup := z.nodup

theorem mem_members : a ∈ z.members ↔ ∃ x, (a, x) ∈ z.entries := by
  unfold members
  rw [List.mem_map]
  constructor
  · rintro ⟨⟨b, x⟩, hmem, rfl⟩
    exact ⟨x, hmem⟩
  · rintro ⟨x, hmem⟩
    exact ⟨(a, x), hmem, rfl⟩

theorem mem_members_keep {p : α × σ → Bool} :
    a ∈ (z.keep p).members ↔ ∃ x, (a, x) ∈ z.entries ∧ p (a, x) := by
  rw [mem_members]
  exact exists_congr fun x ↦ List.mem_filter

theorem keep_keep (p q : α × σ → Bool) : (z.keep p).keep q = z.keep fun e ↦ p e && q e := by
  unfold keep
  congr 1
  rw [List.filter_filter]
  exact List.filter_congr fun e _ ↦ Bool.and_comm _ _

variable [DecidableEq α]

/-- An element with its new score. -/
def add (z : Scored α σ) (a : α) (x : σ) : Scored α σ where
  entries := (a, x) :: z.entries.filter (·.1 ≠ a)
  nodup := by
    rw [List.map_cons, List.nodup_cons]
    refine ⟨?_, z.nodup.sublist (List.filter_sublist.map Prod.fst)⟩
    rw [List.mem_map]
    rintro ⟨e, he, rfl⟩
    simpa using (List.mem_filter.mp he).2

theorem mem_members_add : b ∈ (z.add a x).members ↔ b = a ∨ b ∈ z.members := by
  unfold add members
  rw [List.map_cons, List.mem_cons, List.mem_map, List.mem_map]
  constructor
  · rintro (hb | ⟨e, he, hb⟩)
    · exact Or.inl hb
    · exact Or.inr ⟨e, (List.mem_filter.mp he).1, hb⟩
  · rintro (hb | ⟨e, he, rfl⟩)
    · exact Or.inl hb
    · by_cases hea : e.1 = a
      · exact Or.inl hea
      · exact Or.inr ⟨e, List.mem_filter.mpr ⟨he, by simpa using hea⟩, rfl⟩

end Scored

/-! ## Filling up -/

/-- The elements of a list that are added to a set until it has `bound` elements. -/
def fill [DecidableEq α] (bound : Nat) : List α → List α → List α
  | [], _ => []
  | a :: rest, already =>
    if bound ≤ already.length then []
    else if a ∈ already then fill bound rest already
    else a :: fill bound rest (a :: already)

section Fill

variable [DecidableEq α] {bound : Nat} {l already : List α} {a : α}

theorem length_fill (h : already.length ≤ bound) :
    already.length + (fill bound l already).length ≤ bound := by
  induction l generalizing already with
  | nil => exact h
  | cons b rest ih =>
    unfold fill
    split
    · exact h
    · rename_i hroom
      split
      · exact ih h
      · have hrest := ih (show (b :: already).length ≤ bound by rw [List.length_cons]; omega)
        rw [List.length_cons] at hrest ⊢
        omega

theorem fill_subset : fill bound l already ⊆ l := by
  induction l generalizing already with
  | nil => exact List.nil_subset _
  | cons b rest ih =>
    unfold fill
    split
    · exact List.nil_subset _
    · split
      · exact List.subset_cons_of_subset _ ih
      · exact List.cons_subset_cons _ ih

theorem fill_not_mem (h : a ∈ fill bound l already) : a ∉ already := by
  induction l generalizing already with
  | nil => cases h
  | cons b rest ih =>
    unfold fill at h
    split at h
    · cases h
    · split at h
      · exact ih h
      · rename_i hb
        rcases List.mem_cons.mp h with rfl | h
        · exact hb
        · exact fun ha ↦ ih h (List.mem_cons_of_mem b ha)

theorem fill_nodup : (fill bound l already).Nodup := by
  induction l generalizing already with
  | nil => exact List.nodup_nil
  | cons b rest ih =>
    unfold fill
    split
    · exact List.nodup_nil
    · split
      · exact ih
      · exact List.nodup_cons.mpr ⟨fun hb ↦ fill_not_mem hb List.mem_cons_self, ih⟩

/-- An element is left out only when the set is full. -/
theorem fill_full (ha : a ∈ l) (hnot : a ∉ already) (hout : a ∉ fill bound l already) :
    bound ≤ already.length + (fill bound l already).length := by
  induction l generalizing already with
  | nil => cases ha
  | cons b rest ih =>
    unfold fill at hout ⊢
    split at hout
    · rename_i hfull
      rw [if_pos hfull]
      omega
    · rename_i hroom
      rw [if_neg hroom]
      split at hout
      · rename_i hb
        rw [if_pos hb]
        have hne : a ≠ b := fun heq ↦ hnot (heq ▸ hb)
        exact ih ((List.mem_cons.mp ha).resolve_left hne) hnot hout
      · rename_i hb
        rw [if_neg hb]
        rw [List.mem_cons, not_or] at hout
        have hnot' : a ∉ b :: already := by
          rw [List.mem_cons, not_or]
          exact ⟨hout.1, hnot⟩
        have hrest := ih ((List.mem_cons.mp ha).resolve_left hout.1) hnot' hout.2
        rw [List.length_cons] at hrest ⊢
        omega

variable [LinearOrder α]

/-- How many elements of the list come before `a` and are not in the set. -/
def rank (l already : List α) (a : α) : Nat :=
  (l.toFinset.filter fun b ↦ b < a ∧ b ∉ already).card

variable {b : α} {rest : List α}

theorem rank_cons_mem (hb : b ∈ already) : rank (b :: rest) already a = rank rest already a := by
  unfold rank
  congr 1
  ext c
  simp only [List.toFinset_cons, Finset.mem_filter, Finset.mem_insert, List.mem_toFinset]
  constructor
  · rintro ⟨rfl | hc, hlt, hno⟩
    · exact absurd hb hno
    · exact ⟨hc, hlt, hno⟩
  · rintro ⟨hc, hlt, hno⟩
    exact ⟨Or.inr hc, hlt, hno⟩

/-- An element that comes before `a` is counted until it is in the set. -/
theorem rank_cons (hb : b ∉ already) (hlt : b < a) :
    rank (b :: rest) already a = rank rest (b :: already) a + 1 := by
  have hnotin : b ∉ rest.toFinset.filter fun c ↦ c < a ∧ c ∉ b :: already := by
    simp
  unfold rank
  rw [← Finset.card_insert_of_notMem hnotin]
  congr 1
  ext c
  simp only [Finset.mem_insert, Finset.mem_filter, List.mem_toFinset, List.toFinset_cons,
    List.mem_cons, not_or]
  constructor
  · rintro ⟨hc, hca, hno⟩
    by_cases heq : c = b
    · exact Or.inl heq
    · exact Or.inr ⟨hc.resolve_left heq, hca, heq, hno⟩
  · rintro (rfl | ⟨hc, hca, -, hno⟩)
    · exact ⟨Or.inl rfl, hlt, hb⟩
    · exact ⟨Or.inr hc, hca, hno⟩

/-- An element is added exactly when what is there and what comes before it leave room. -/
theorem mem_fill_iff (hsorted : l.Pairwise (· ≤ ·)) (ha : a ∈ l) (hnot : a ∉ already) :
    a ∈ fill bound l already ↔ already.length + rank l already a < bound := by
  induction l generalizing already with
  | nil => cases ha
  | cons b rest ih =>
    obtain ⟨hfirst, hsorted⟩ := List.pairwise_cons.mp hsorted
    unfold fill
    by_cases hfull : bound ≤ already.length
    · rw [if_pos hfull]
      constructor
      · intro h
        cases h
      · intro h
        omega
    rw [if_neg hfull]
    by_cases hb : b ∈ already
    · have hne : a ≠ b := fun heq ↦ hnot (heq ▸ hb)
      rw [if_pos hb, rank_cons_mem hb]
      exact ih hsorted ((List.mem_cons.mp ha).resolve_left hne) hnot
    · rw [if_neg hb, List.mem_cons]
      by_cases heq : a = b
      · -- nothing comes before the head
        have hzero : rank (b :: rest) already a = 0 := by
          unfold rank
          rw [Finset.card_eq_zero, Finset.filter_eq_empty_iff]
          intro c hc hlt
          rw [List.mem_toFinset, List.mem_cons] at hc
          rcases hc with rfl | hc
          · exact absurd hlt.1 (heq ▸ lt_irrefl c)
          · exact absurd hlt.1 (heq ▸ not_lt.mpr (hfirst c hc))
        rw [hzero]
        simp only [heq, true_or, true_iff]
        omega
      · have hmem : a ∈ rest := (List.mem_cons.mp ha).resolve_left heq
        have hlt : b < a := lt_of_le_of_ne (hfirst a hmem) (Ne.symm heq)
        have hnot' : a ∉ b :: already := by
          rw [List.mem_cons, not_or]
          exact ⟨heq, hnot⟩
        rw [rank_cons hb hlt, or_iff_right heq, ih hsorted hmem hnot', List.length_cons]
        omega

end Fill

end Reasoning
