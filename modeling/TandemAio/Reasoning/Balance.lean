import Mathlib

/-!
# Giving out tasks one by one

Tasks are given to nodes that have some load already, each to a node whose load is least.  The
loads then differ by no more than they have to, and no way to give out as many tasks has a smaller
largest load.
-/

namespace Reasoning

variable {ν : Type}

/-! ## The first least -/

/-- The first element of a list that is not empty whose load is least. -/
def firstLeast (load : ν → Nat) (head : ν) (tail : List ν) : ν :=
  tail.foldl (fun best n ↦ if load n < load best then n else best) head

theorem firstLeast_mem (load : ν → Nat) (head : ν) (tail : List ν) :
    firstLeast load head tail ∈ head :: tail := by
  induction tail generalizing head with
  | nil => exact List.mem_singleton_self head
  | cons n tail ih =>
    have hstep := ih (if load n < load head then n else head)
    change firstLeast load (if load n < load head then n else head) tail ∈ _
    rcases List.mem_cons.mp hstep with h | h
    · rw [h]
      split
      · exact List.mem_cons_of_mem _ List.mem_cons_self
      · exact List.mem_cons_self
    · exact List.mem_cons_of_mem _ (List.mem_cons_of_mem _ h)

theorem firstLeast_le (load : ν → Nat) (head : ν) (tail : List ν) :
    ∀ n ∈ head :: tail, load (firstLeast load head tail) ≤ load n := by
  induction tail generalizing head with
  | nil =>
    intro n hn
    rw [List.mem_singleton.mp hn]
    exact le_rfl
  | cons m tail ih =>
    have hstep := ih (if load m < load head then m else head)
    change ∀ n ∈ head :: m :: tail,
      load (firstLeast load (if load m < load head then m else head) tail) ≤ load n
    have hbest := hstep _ List.mem_cons_self
    have hboth : load (if load m < load head then m else head) ≤ load head ∧
        load (if load m < load head then m else head) ≤ load m := by
      split <;> omega
    intro n hn
    rcases List.mem_cons.mp hn with rfl | hn
    · omega
    · rcases List.mem_cons.mp hn with rfl | hn
      · omega
      · exact hstep n (List.mem_cons_of_mem _ hn)

/-- It comes before the others that are as good, and after none. -/
theorem firstLeast_eq_iff {load : ν → Nat} {head n : ν} {tail : List ν} :
    firstLeast load head tail = n ↔ ∃ before after, head :: tail = before ++ n :: after ∧
      (∀ m ∈ before, load n < load m) ∧ ∀ m ∈ after, load n ≤ load m := by
  constructor
  · rintro rfl
    induction tail generalizing head with
    | nil => exact ⟨[], [], rfl, by simp, by simp⟩
    | cons m tail ih =>
      by_cases hless : load m < load head
      · have hstep : firstLeast load head (m :: tail) = firstLeast load m tail := by
          rw [firstLeast, List.foldl_cons, if_pos hless]
          rfl
        obtain ⟨before, after, hsplit, hbefore, hafter⟩ := @ih m
        rw [hstep]
        refine ⟨head :: before, after, congrArg (head :: ·) hsplit, ?_, hafter⟩
        intro x hx
        rcases List.mem_cons.mp hx with rfl | hx
        · exact lt_of_le_of_lt (firstLeast_le load m tail m List.mem_cons_self) hless
        · exact hbefore x hx
      · have hstep : firstLeast load head (m :: tail) = firstLeast load head tail := by
          rw [firstLeast, List.foldl_cons, if_neg hless]
          rfl
        obtain ⟨before, after, hsplit, hbefore, hafter⟩ := @ih head
        rw [hstep]
        cases before with
        | nil =>
          obtain ⟨hhead, htail⟩ := List.cons.inj hsplit
          refine ⟨[], m :: tail, congrArg (· :: m :: tail) hhead, by simp, ?_⟩
          rw [← hhead, htail]
          rw [← hhead] at hafter
          intro x hx
          rcases List.mem_cons.mp hx with rfl | hx
          · exact Nat.le_of_not_lt hless
          · exact hafter x hx
        | cons first before =>
          obtain ⟨rfl, htail⟩ := List.cons.inj hsplit
          have hhead := hbefore head List.mem_cons_self
          refine ⟨head :: m :: before, after, congrArg (head :: m :: ·) htail, ?_, hafter⟩
          intro x hx
          rcases List.mem_cons.mp hx with rfl | hx
          · exact hhead
          · rcases List.mem_cons.mp hx with rfl | hx
            · omega
            · exact hbefore x (List.mem_cons_of_mem _ hx)
  · rintro ⟨before, after, hsplit, hbefore, hafter⟩
    induction tail generalizing head before after with
    | nil =>
      cases before with
      | nil => exact (List.cons.inj hsplit).1
      | cons first before => simp at hsplit
    | cons m tail ih =>
      have hstep : firstLeast load head (m :: tail) =
          firstLeast load (if load m < load head then m else head) tail := rfl
      rw [hstep]
      cases before with
      | nil =>
        obtain ⟨rfl, rfl⟩ := List.cons.inj hsplit
        rw [if_neg (Nat.not_lt.mpr (hafter m List.mem_cons_self))]
        have hrest : ∀ x ∈ tail, load head ≤ load x := fun x hx ↦
          hafter x (List.mem_cons_of_mem _ hx)
        exact ih [] tail rfl (by simp) hrest
      | cons first before =>
        obtain ⟨rfl, hrest⟩ := List.cons.inj hsplit
        split_ifs with hless
        · exact ih before after hrest (fun x hx ↦ hbefore x (List.mem_cons_of_mem _ hx))
            hafter
        · cases before with
          | nil =>
            obtain ⟨rfl, -⟩ := List.cons.inj hrest
            exact absurd (hbefore head List.mem_cons_self) hless
          | cons second before =>
            obtain ⟨rfl, htail⟩ := List.cons.inj hrest
            refine ih (head :: before) after (congrArg (head :: ·) htail) (fun x hx ↦ ?_) hafter
            rcases List.mem_cons.mp hx with rfl | hx
            · exact hbefore x List.mem_cons_self
            · exact hbefore x (List.mem_cons_of_mem _ (List.mem_cons_of_mem _ hx))

/-! ## Balance -/

/-- A node that has been given a task has at most one more than any other node. -/
def Balanced (nodes : Finset ν) (queued given : ν → Nat) : Prop :=
  ∀ a ∈ nodes, ∀ b ∈ nodes, 0 < given a → queued a + given a ≤ queued b + given b + 1

/-- One more task for a node. -/
def giveTo [DecidableEq ν] (given : ν → Nat) (n : ν) : ν → Nat :=
  Function.update given n (given n + 1)

variable {nodes : Finset ν} {queued given : ν → Nat}

theorem balanced_none (nodes : Finset ν) (queued : ν → Nat) :
    Balanced nodes queued fun _ ↦ 0 := by
  intro a _ b _ hpos
  exact absurd hpos (Nat.lt_irrefl 0)

theorem Balanced.give [DecidableEq ν] (h : Balanced nodes queued given) {n : ν}
    (hleast : ∀ m ∈ nodes, queued n + given n ≤ queued m + given m) :
    Balanced nodes queued (giveTo given n) := by
  have hgrows (m : ν) : given m ≤ giveTo given n m := by
    unfold giveTo
    by_cases hm : m = n
    · rw [hm, Function.update_self]
      exact Nat.le_succ _
    · rw [Function.update_of_ne hm]
  intro a ha b hb hpos
  have hb' := hgrows b
  by_cases han : a = n
  · have hle := hleast b hb
    rw [han]
    unfold giveTo at hb' ⊢
    rw [Function.update_self]
    omega
  · have hsame : giveTo given n a = given a := Function.update_of_ne han _ _
    rw [hsame] at hpos ⊢
    have hbefore := h a ha b hb hpos
    omega

theorem sum_giveTo [DecidableEq ν] (given : ν → Nat) {n : ν} (hn : n ∈ nodes) :
    ∑ m ∈ nodes, giveTo given n m = ∑ m ∈ nodes, given m + 1 := by
  have hothers : ∑ m ∈ nodes.erase n, giveTo given n m = ∑ m ∈ nodes.erase n, given m := by
    apply Finset.sum_congr rfl
    intro m hm
    exact Function.update_of_ne (Finset.ne_of_mem_erase hm) _ _
  have hown : giveTo given n n = given n + 1 := Function.update_self ..
  rw [← Finset.add_sum_erase nodes _ hn, ← Finset.add_sum_erase nodes given hn, hothers, hown]
  omega

/-- The largest load of a balanced distribution is the least that is possible. -/
theorem Balanced.optimal (h : Balanced nodes queued given) {other : ν → Nat}
    (hsum : ∑ n ∈ nodes, other n = ∑ n ∈ nodes, given n) :
    nodes.sup (fun n ↦ queued n + given n) ≤ nodes.sup fun n ↦ queued n + other n := by
  apply Finset.sup_le
  intro a ha
  by_contra hlarge
  have hother (n : ν) (hn : n ∈ nodes) : queued n + other n ≤
      nodes.sup fun n ↦ queued n + other n :=
    Finset.le_sup (f := fun n ↦ queued n + other n) hn
  have hgiven : 0 < given a := by
    have hown := hother a ha
    omega
  -- then every node has as much as any node of the other distribution, and `a` has more
  have hle : ∀ n ∈ nodes, queued n + other n ≤ queued n + given n := by
    intro n hn
    have hn' := hother n hn
    have hbalance := h a ha n hn hgiven
    omega
  have hlt : queued a + other a < queued a + given a := by
    have hown := hother a ha
    omega
  have hless := Finset.sum_lt_sum hle ⟨a, ha, hlt⟩
  rw [Finset.sum_add_distrib, Finset.sum_add_distrib, hsum] at hless
  exact Nat.lt_irrefl _ hless

end Reasoning
