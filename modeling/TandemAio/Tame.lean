import TandemAio.Reachable

/-!
# Tame tasks

What holds of every task also when requests stop in the middle: only a live task has tokens, and
only a queued task waits, once and where it belongs.  This is enough for a finished task to stay as
it is.
-/

open Reasoning Reasoning.Prog

namespace TandemAio

structure TaskTame (s : Store) (t : Tid) (task : Task) : Prop where
  idle : task.status.live ≠ true → task.claimToken = none ∧ task.downloadToken = none
  waits : ∀ key, s.waits t key ≤
    if task.status = .queued ∧ key = homeQueue task.assignedNode task.runtime then 1 else 0

def Tame (s : Store) : Prop := ∀ t task, s.task t = some task → TaskTame s t task

theorem TaskStatus.cases (status : TaskStatus) :
    status = .queued ∨ status.live = true ∨ status.finished = true := by
  cases status <;> simp only [live, finished, true_or, or_true]

theorem TaskStatus.not_finished_of_live {status : TaskStatus} (h : status.live = true) :
    status.finished ≠ true := by
  cases status <;> simp only [live, finished, Bool.false_eq_true, ne_eq, not_false_eq_true] at *

theorem homeIn_homeQueue (task : Task) :
    Store.homeIn task (homeQueue task.assignedNode task.runtime) := by
  cases ha : task.assignedNode <;> exact ha

namespace TaskTame

variable {s s' : Store} {l : Label} {t : Tid} {task task' : Task} {key : QueueKey}

theorem live_of_claimToken (h : TaskTame s t task) (hc : task.claimToken ≠ none) :
    task.status.live = true :=
  by_contra fun hl ↦ hc (h.idle hl).1

theorem live_of_downloadToken (h : TaskTame s t task) (hd : task.downloadToken ≠ none) :
    task.status.live = true :=
  by_contra fun hl ↦ hd (h.idle hl).2

theorem waits_zero (h : TaskTame s t task) (hs : task.status ≠ .queued) (key : QueueKey) :
    s.waits t key = 0 := by
  have hw := h.waits key
  rw [if_neg fun hq ↦ hs hq.1] at hw
  omega

theorem waits_live (h : TaskTame s t task) (hs : task.status.live = true) (key : QueueKey) :
    s.waits t key = 0 := by
  apply h.waits_zero
  intro hq
  rw [hq] at hs
  cases hs

theorem queued_of_mem (h : TaskTame s t task) (hm : t ∈ s.queue key) :
    task.status = .queued ∧ key = homeQueue task.assignedNode task.runtime := by
  rw [Store.mem_queue_iff] at hm
  by_contra hno
  have hw := h.waits key
  rw [if_neg hno] at hw
  omega

/-- A task taken from the front of a queue waits nowhere else. -/
theorem waits_pop (h : TaskTame s t task) {rest : List Tid} (hq : s.queue key = t :: rest)
    (key' : QueueKey) : (s.pop key).waits t key' = 0 := by
  obtain ⟨hs, hk⟩ := h.queued_of_mem (hq ▸ List.mem_cons_self)
  have hw := h.waits key'
  have hp := Store.waits_pop (u := t) hq key'
  rw [← hk] at hw
  by_cases he : key' = key
  · simp only [he, hs, and_self, if_true] at hp hw
    rw [he]
    omega
  · simp only [he, and_false, false_and, if_false] at hp hw
    omega

theorem frame (h : TaskTame s t task) (hw : ∀ key, s'.waits t key = s.waits t key) :
    TaskTame s' t task where
  idle := h.idle
  waits key := by
    rw [hw]
    exact h.waits key

theorem of_waits (hidle : task.status.live ≠ true → task.claimToken = none ∧
    task.downloadToken = none) (hw : ∀ key, s.waits t key = 0) : TaskTame s t task where
  idle := hidle
  waits key := by
    rw [hw]
    exact Nat.zero_le _

/-- A task that waits nowhere goes to a queue. -/
theorem requeue {destination : Option NodeId} (hz : ∀ key, s.waits t key = 0) :
    TaskTame (s.requeue t destination task.runtime) t (task.requeue destination s.clock) where
  idle _ := ⟨rfl, rfl⟩
  waits key := by
    rw [Store.waits_requeue, hz, Nat.zero_add]
    exact le_of_eq (if_congr (by simp [Task.requeue, and_comm]) rfl rfl)

/-- An edit leaves its task tame. -/
theorem edit (h : TaskTame s t task) (hm : Move s l s') (ht : s.task t = some task)
    (he : Edit s t task l task') : TaskTame s' t task' := by
  have hholder : ∀ {c : Token}, task.claimToken = some c → task.status.live = true := fun hc ↦
    h.live_of_claimToken (by rw [hc]; exact Option.some_ne_none _)
  cases he with
  | lease =>
    cases hm with
    | lease =>
      exact ⟨h.idle, h.waits⟩
  | requeue hr =>
    cases hm with
    | reclaim _ _ _ ht' hs =>
      obtain ⟨rfl, rfl⟩ := Prod.mk.inj (Option.some.inj hr)
      obtain rfl := Option.some.inj (ht.symm.trans ht')
      exact (TaskTame.requeue (h.waits_live hs)).frame fun _ ↦ rfl
    | rehome _ hq ht' | bounce _ hq ht' =>
      obtain ⟨rfl, rfl⟩ := Prod.mk.inj (Option.some.inj hr)
      obtain rfl := Option.some.inj (ht.symm.trans ht')
      exact TaskTame.requeue (s := s.pop _) (h.waits_pop hq)
    | @reject n _ _ _ _ _ ht' _ hc =>
      obtain ⟨rfl, rfl⟩ := Prod.mk.inj (Option.some.inj hr)
      obtain rfl := Option.some.inj (ht.symm.trans ht')
      exact TaskTame.requeue (s := s.strike n) (h.waits_live (hholder hc))
    | _ => cases hr
  | claim n key c d =>
    cases hm with
    | take _ _ _ hq => exact .of_waits (fun hl ↦ absurd rfl hl) (h.waits_pop hq)
  | start n =>
    cases hm with
    | start _ ht' _ hd =>
      obtain rfl := Option.some.inj (ht.symm.trans ht')
      have hl := h.live_of_downloadToken (by rw [hd]; exact Option.some_ne_none _)
      exact .of_waits (fun hno ↦ absurd rfl hno) (h.waits_live hl)
  | complete =>
    cases hm with
    | complete _ _ ht' _ hc =>
      obtain rfl := Option.some.inj (ht.symm.trans ht')
      exact .of_waits (fun _ ↦ ⟨rfl, rfl⟩) (h.waits_live (hholder hc))
  | fail =>
    cases hm with
    | fail _ _ ht' _ hc =>
      obtain rfl := Option.some.inj (ht.symm.trans ht')
      exact .of_waits (fun _ ↦ ⟨rfl, rfl⟩) (h.waits_live (hholder hc))

end TaskTame

variable {s s' : Store} {l : Label}

theorem Tame.move (h : Tame s) (hm : Move s l s') : Tame s' := by
  intro t task' ht'
  rcases hm.task_cases ht' with ⟨hs, hno⟩ | ⟨a, rfl, rfl, rfl⟩ | ⟨task, hs, he⟩
  · have htame := h t task' hs
    by_cases htid : l.tid? = some t
    · -- an id that is dropped from a queue
      obtain ⟨key, rfl⟩ := hno.resolve_left (fun hne ↦ hne htid)
      cases hm with
      | discard hq => exact .of_waits htame.idle (htame.waits_pop hq)
    · exact htame.frame (hm.waits_frame htid)
  · cases hm with
    | createTask _ hnew =>
      refine ⟨fun _ ↦ ⟨rfl, rfl⟩, fun key ↦ ?_⟩
      have hz : s.waits a.tid key = 0 := List.count_eq_zero.mpr (hnew.queue key)
      rw [Store.waits_create, hz, Nat.zero_add]
      exact le_of_eq (if_congr (by simp [CreateTask.task]) rfl rfl)
  · exact (h t task hs).edit hm hs he

/-- Nothing changes a finished task, but its expiry. -/
theorem Tame.finished_final (h : Tame s) (hm : Move s l s') {t : Tid} {task : Task}
    (ht : s.task t = some task) (hf : task.status.finished = true) :
    s'.task t = some task ∨ s'.task t = none := by
  cases ht' : s'.task t with
  | none => exact .inr rfl
  | some task' =>
    left
    have htame := h t task ht
    have hlive : ¬ task.status.live = true := fun hl ↦ TaskStatus.not_finished_of_live hl hf
    have hwaits : ∀ key, t ∉ s.queue key := fun key hmem ↦ by
      rw [(htame.queued_of_mem hmem).1] at hf
      cases hf
    -- a token would make the task live
    have hholder : ∀ {task₁ : Task} {c : Token}, s.task t = some task₁ →
        task₁.claimToken ≠ some c := by
      intro task₁ c ht₁ hc
      obtain rfl := Option.some.inj (ht.symm.trans ht₁)
      exact hlive (htame.live_of_claimToken (by rw [hc]; exact Option.some_ne_none c))
    rcases hm.task_cases ht' with ⟨hs, -⟩ | ⟨a, rfl, rfl, rfl⟩ | ⟨task₀, hs, he⟩
    · exact hs.symm.trans ht
    · cases hm with
      | createTask _ hnew =>
        rw [hnew.task] at ht
        cases ht
    · obtain rfl := Option.some.inj (ht.symm.trans hs)
      cases he with
      | lease =>
        cases hm with
        | lease ht₁ hl =>
          obtain rfl := Option.some.inj (ht.symm.trans ht₁)
          exact absurd hl hlive
      | start =>
        cases hm with
        | start _ ht₁ _ hd =>
          obtain rfl := Option.some.inj (ht.symm.trans ht₁)
          exact absurd (htame.live_of_downloadToken (by rw [hd]; exact Option.some_ne_none _)) hlive
      | claim n key c d =>
        cases hm with
        | take _ _ _ hq => exact absurd (hq ▸ List.mem_cons_self) (hwaits key)
      | complete =>
        cases hm with
        | complete _ _ ht₁ _ hc => exact absurd hc (hholder ht₁)
      | fail =>
        cases hm with
        | fail _ _ ht₁ _ hc => exact absurd hc (hholder ht₁)
      | requeue hr =>
        cases hm with
        | reclaim _ _ _ ht₁ hl =>
          obtain ⟨rfl, -⟩ := Prod.mk.inj (Option.some.inj hr)
          obtain rfl := Option.some.inj (ht.symm.trans ht₁)
          exact absurd hl hlive
        | @rehome m _ _ _ _ hq =>
          obtain ⟨rfl, -⟩ := Prod.mk.inj (Option.some.inj hr)
          exact absurd (hq ▸ List.mem_cons_self) (hwaits (.node m))
        | @bounce _ key _ _ _ _ hq =>
          obtain ⟨rfl, -⟩ := Prod.mk.inj (Option.some.inj hr)
          exact absurd (hq ▸ List.mem_cons_self) (hwaits key)
        | reject _ ht₁ _ hc =>
          obtain ⟨rfl, -⟩ := Prod.mk.inj (Option.some.inj hr)
          exact absurd hc (hholder ht₁)
        | _ => cases hr

end TandemAio
