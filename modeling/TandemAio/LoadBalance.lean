import TandemAio.Reasoning.Balance
import TandemAio.StartJob

/-!
# Planning spreads the load

What the calls of `select_least_loaded_node` of one planning pass add up to.
-/

open Reasoning

namespace TandemAio

variable {queued : NodeId → Nat} {available : AvailableNodes}

/-- Calls of `select_least_loaded_node` that share the map `pending`: the nodes that they return,
and the map after the last of them. -/
def selections (queued : NodeId → Nat) (available : AvailableNodes) :
    Nat → NodeLoad → List NodeId × NodeLoad
  | 0, pending => ([], pending)
  | k + 1, pending =>
    let (nodeId, pending) := selectLeastLoadedNode queued available pending
    let (selected, pending) := selections queued available k pending
    (nodeId :: selected, pending)

/-- What a node has to do: its queue and what it has been given. -/
def finalLoad (queued : NodeId → Nat) (received : NodeId → Nat) (nodeId : NodeId) : Nat :=
  queued nodeId + received nodeId

/-- The largest load of a node. -/
def largestLoad (queued : NodeId → Nat) (available : AvailableNodes) (received : NodeId → Nat) :
    Nat :=
  available.nodes.toFinset.sup (finalLoad queued received)

theorem AvailableNodes.cons (available : AvailableNodes) :
    available.nodes.head available.nonempty :: available.nodes.tail = available.nodes :=
  List.cons_head_tail available.nonempty

/-- The call gives its task to an available node with the least load. -/
theorem selectLeastLoadedNode_spec (queued : NodeId → Nat) (available : AvailableNodes)
    (pending : NodeLoad) :
    (selectLeastLoadedNode queued available pending).1 ∈ available.nodes ∧
      (∀ nodeId ∈ available.nodes,
        finalLoad queued pending (selectLeastLoadedNode queued available pending).1 ≤
          finalLoad queued pending nodeId) ∧
      (selectLeastLoadedNode queued available pending).2 =
        giveTo pending (selectLeastLoadedNode queued available pending).1 := by
  have hmem := firstLeast_mem (finalLoad queued pending)
    (available.nodes.head available.nonempty) available.nodes.tail
  have hle := firstLeast_le (finalLoad queued pending)
    (available.nodes.head available.nonempty) available.nodes.tail
  rw [available.cons] at hmem hle
  exact ⟨hmem, hle, rfl⟩

/-- Every call returns an available node. -/
theorem selections_mem (queued : NodeId → Nat) (available : AvailableNodes) (k : Nat)
    (pending : NodeLoad) :
    (selections queued available k pending).1.length = k ∧
      ∀ nodeId ∈ (selections queued available k pending).1, nodeId ∈ available.nodes := by
  induction k generalizing pending with
  | zero => exact ⟨rfl, fun nodeId hnode ↦ nomatch hnode⟩
  | succ k ih =>
    obtain ⟨hmem, -, -⟩ := selectLeastLoadedNode_spec queued available pending
    obtain ⟨hlength, hall⟩ := ih (selectLeastLoadedNode queued available pending).2
    rw [selections]
    dsimp only
    refine ⟨congrArg (· + 1) hlength, fun nodeId hnode ↦ ?_⟩
    rcases List.mem_cons.mp hnode with rfl | hnode
    · exact hmem
    · exact hall nodeId hnode

/-- The map counts what has been returned. -/
theorem selections_pending (queued : NodeId → Nat) (available : AvailableNodes) (k : Nat)
    (pending : NodeLoad) (nodeId : NodeId) :
    (selections queued available k pending).2 nodeId =
      pending nodeId + (selections queued available k pending).1.count nodeId := by
  induction k generalizing pending with
  | zero => rfl
  | succ k ih =>
    obtain ⟨-, -, hgive⟩ := selectLeastLoadedNode_spec queued available pending
    rw [selections]
    dsimp only
    rw [ih, List.count_cons, hgive]
    generalize (selectLeastLoadedNode queued available pending).1 = selected
    unfold giveTo
    by_cases hnode : selected = nodeId
    · rw [hnode, Function.update_self, beq_self_eq_true, if_pos rfl]
      omega
    · rw [Function.update_of_ne (Ne.symm hnode), if_neg (by simpa using hnode)]
      omega

theorem sum_selections (queued : NodeId → Nat) (available : AvailableNodes) (k : Nat)
    (pending : NodeLoad) :
    ∑ nodeId ∈ available.nodes.toFinset, (selections queued available k pending).2 nodeId =
      ∑ nodeId ∈ available.nodes.toFinset, pending nodeId + k := by
  induction k generalizing pending with
  | zero => rfl
  | succ k ih =>
    obtain ⟨hmem, -, hgive⟩ := selectLeastLoadedNode_spec queued available pending
    rw [selections]
    dsimp only
    rw [ih, hgive, sum_giveTo _ (List.mem_toFinset.mpr hmem)]
    omega

theorem balanced_selections {pending : NodeLoad}
    (h : Balanced available.nodes.toFinset queued pending) (k : Nat) :
    Balanced available.nodes.toFinset queued (selections queued available k pending).2 := by
  induction k generalizing pending with
  | zero => exact h
  | succ k ih =>
    obtain ⟨-, hle, hgive⟩ := selectLeastLoadedNode_spec queued available pending
    rw [selections]
    dsimp only
    apply ih
    rw [hgive]
    apply h.give
    intro nodeId hnode
    exact hle nodeId (List.mem_toFinset.mp hnode)

/-- The calls of a planning pass return one available node each, and the map counts how often it is
returned.  No node that is returned ends with two tasks more than another, and no distribution of as
many tasks has a smaller largest load. -/
theorem selection_balances (queued : NodeId → Nat) (available : AvailableNodes) (k : Nat) :
    ∃ (selected : List NodeId) (pending : NodeLoad),
      selections queued available k (fun _ ↦ 0) = (selected, pending) ∧
      selected.length = k ∧ (∀ nodeId ∈ selected, nodeId ∈ available.nodes) ∧
      (∀ nodeId, pending nodeId = selected.count nodeId) ∧
      ∑ nodeId ∈ available.nodes.toFinset, pending nodeId = k ∧
      (∀ a ∈ selected, ∀ b ∈ available.nodes,
        finalLoad queued pending a ≤ finalLoad queued pending b + 1) ∧
      ∀ other : NodeLoad, ∑ nodeId ∈ available.nodes.toFinset, other nodeId = k →
        largestLoad queued available pending ≤ largestLoad queued available other := by
  have hsum := sum_selections queued available k fun _ ↦ 0
  rw [Finset.sum_const_zero, Nat.zero_add] at hsum
  have hbalanced := balanced_selections (balanced_none available.nodes.toFinset queued) k
  obtain ⟨hlength, hmem⟩ := selections_mem queued available k fun _ ↦ 0
  have hcount : ∀ nodeId, (selections queued available k fun _ ↦ 0).2 nodeId =
      (selections queued available k fun _ ↦ 0).1.count nodeId := by
    intro nodeId
    rw [selections_pending, Nat.zero_add]
  refine ⟨_, _, rfl, hlength, hmem, hcount, hsum, fun a ha b hb ↦ ?_, fun other hother ↦ ?_⟩
  · have hpos : 0 < (selections queued available k fun _ ↦ 0).2 a := by
      rw [hcount]
      exact List.count_pos_iff.mpr ha
    exact hbalanced a (List.mem_toFinset.mpr (hmem a ha)) b (List.mem_toFinset.mpr hb) hpos
  · exact hbalanced.optimal (hother.trans hsum.symm)

/-! ## The plans of a pass -/

theorem planPickles_nodes [AsciiFold] {files : List Upload} {pending : NodeLoad}
    {planned : List PlannedTask} (h : planPickles queued available files pending = .ok planned) :
    planned.map (·.assignedNode) = (selections queued available planned.length pending).1 := by
  induction files generalizing pending planned with
  | nil =>
    cases h
    rfl
  | cons pickleFile rest ih =>
    unfold planPickles at h
    dsimp only at h
    split at h
    · cases h
    · obtain ⟨more, hmore, h⟩ := except_bind_ok.mp h
      cases h
      exact congrArg (_ :: ·) (ih hmore)

/-- A plan of pickled tasks gives its tasks to the nodes that as many calls in a row return. -/
theorem planCloudpickleTasks_nodes [AsciiFold] {files : List Upload} {planned : List PlannedTask}
    (h : planCloudpickleTasks queued available files = .ok planned) :
    planned.map (·.assignedNode) =
      (selections queued available planned.length fun _ ↦ 0).1 := by
  unfold planCloudpickleTasks at h
  split at h
  · cases h
  · exact planPickles_nodes h

end TandemAio
