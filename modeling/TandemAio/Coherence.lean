import TandemAio.Tame

/-!
# Queue coherence

Without key expiry, a task that is queued waits once, in the queue it belongs in; a task that is
live waits nowhere, has its tokens, and its node points at it; a task that is finished waits
nowhere and has no token.
-/

open Reasoning Reasoning.Prog

namespace TandemAio

/-- Where a task is, given its status. -/
structure TaskCoherent (s : Store) (t : Tid) (task : Task) : Prop where
  queued : task.status = .queued → task.claimToken = none ∧ task.downloadToken = none ∧
    ∀ key, s.waits t key = if key = homeQueue task.assignedNode task.runtime then 1 else 0
  live : task.status.live = true → task.claimToken ≠ none ∧ task.downloadToken ≠ none ∧
    (∀ key, s.waits t key = 0) ∧ ∃ n, task.assignedNode = some n ∧ s.pointer n = some t
  finished : task.status.finished = true → task.claimToken = none ∧ task.downloadToken = none ∧
    ∀ key, s.waits t key = 0

def Coherent (s : Store) : Prop := ∀ t task, s.task t = some task → TaskCoherent s t task

/-- Every id in a queue is that of a task. -/
def Backed (s : Store) : Prop := ∀ key t, t ∈ s.queue key → ∃ task, s.task t = some task

/-- A move that drops no task hash. -/
def Label.keepsTasks : Label → Prop
  | .expire _ => False
  | _ => True

namespace TaskCoherent

variable {s s' : Store} {t : Tid} {task task' : Task} {key : QueueKey}

theorem live_of_claimToken (h : TaskCoherent s t task) (hc : task.claimToken ≠ none) :
    task.status.live = true := by
  rcases task.status.cases with hs | hs | hs
  · exact absurd (h.queued hs).1 hc
  · exact hs
  · exact absurd (h.finished hs).1 hc

theorem live_of_downloadToken (h : TaskCoherent s t task) (hd : task.downloadToken ≠ none) :
    task.status.live = true := by
  rcases task.status.cases with hs | hs | hs
  · exact absurd (h.queued hs).2.1 hd
  · exact hs
  · exact absurd (h.finished hs).2.1 hd

theorem queued_of_mem (h : TaskCoherent s t task) (hm : t ∈ s.queue key) :
    task.status = .queued ∧ key = homeQueue task.assignedNode task.runtime := by
  rw [Store.mem_queue_iff] at hm
  rcases task.status.cases with hs | hs | hs
  · have hw := (h.queued hs).2.2 key
    refine ⟨hs, by_contra fun hk ↦ hm ?_⟩
    rw [hw, if_neg hk]
  · exact absurd ((h.live hs).2.2.1 key) hm
  · exact absurd ((h.finished hs).2.2 key) hm

/-- A task taken from the front of a queue waits nowhere else. -/
theorem waits_pop (h : TaskCoherent s t task) {rest : List Tid} (hq : s.queue key = t :: rest)
    (key' : QueueKey) : (s.pop key).waits t key' = 0 := by
  have hmem : t ∈ s.queue key := hq ▸ List.mem_cons_self
  obtain ⟨hs, hk⟩ := h.queued_of_mem hmem
  have hw := (h.queued hs).2.2 key'
  have hp := Store.waits_pop (u := t) hq key'
  rw [hw, ← hk] at hp
  by_cases he : key' = key
  · simp only [he, and_self, if_true] at hp
    rw [he]
    omega
  · simp only [he, false_and, if_false, Nat.add_zero] at hp
    exact hp

/-- Nothing of a task has changed. -/
theorem frame (h : TaskCoherent s t task) (hw : ∀ key, s'.waits t key = s.waits t key)
    (hp : task.status.live = true → ∀ n, task.assignedNode = some n → s.pointer n = some t →
      s'.pointer n = some t) : TaskCoherent s' t task where
  queued hs := by
    simp only [hw]
    exact h.queued hs
  live hs := by
    obtain ⟨hc, hd, hz, n, hn, hpn⟩ := h.live hs
    simp only [hw]
    exact ⟨hc, hd, hz, n, hn, hp hs n hn hpn⟩
  finished hs := by
    simp only [hw]
    exact h.finished hs

theorem of_queued (hs : task.status = .queued) (hc : task.claimToken = none)
    (hd : task.downloadToken = none)
    (hw : ∀ key, s.waits t key = if key = homeQueue task.assignedNode task.runtime then 1 else 0) :
    TaskCoherent s t task where
  queued _ := ⟨hc, hd, hw⟩
  live hl := by rw [hs] at hl; cases hl
  finished hf := by rw [hs] at hf; cases hf

theorem of_live (hs : task.status.live = true) (hc : task.claimToken ≠ none)
    (hd : task.downloadToken ≠ none) (hw : ∀ key, s.waits t key = 0)
    {n : NodeId} (hn : task.assignedNode = some n) (hp : s.pointer n = some t) :
    TaskCoherent s t task where
  queued hq := by rw [hq] at hs; cases hs
  live _ := ⟨hc, hd, hw, n, hn, hp⟩
  finished hf := absurd hf (TaskStatus.not_finished_of_live hs)

theorem of_finished (hs : task.status.finished = true) (hc : task.claimToken = none)
    (hd : task.downloadToken = none) (hw : ∀ key, s.waits t key = 0) : TaskCoherent s t task where
  queued hq := by rw [hq] at hs; cases hs
  live hl := absurd hs (TaskStatus.not_finished_of_live hl)
  finished _ := ⟨hc, hd, hw⟩

/-- A task that waits nowhere goes to a queue. -/
theorem requeue {destination : Option NodeId} (hz : ∀ key, s.waits t key = 0) :
    TaskCoherent (s.requeue t destination task.runtime) t (task.requeue destination s.clock) := by
  refine of_queued rfl rfl rfl fun key ↦ ?_
  rw [Store.waits_requeue, hz, Nat.zero_add]
  exact if_congr (and_iff_left rfl) rfl rfl

end TaskCoherent

variable {s s' : Store} {l : Label}

/-- The node and the task of a move that ends its task. -/
def Label.ends : Label → Option (NodeId × Tid)
  | .complete nodeId tid _ | .fail nodeId tid => some (nodeId, tid)
  | _ => none

/-- A move that clears the pointer to a live task is about that task, if a node ends only the task
it points at. -/
theorem Move.clears_ne (hm : Move s l s')
    (hends : ∀ n tid, l.ends = some (n, tid) → s.pointer n = some tid) {t : Tid} {task : Task}
    {n : NodeId} (ht : s.task t = some task) (hs : task.status.live = true)
    (hp : s.pointer n = some t) (hl : l.tid? ≠ some t) : l.clears ≠ some n := by
  intro hc
  obtain ⟨node, hn, hcur⟩ := Option.bind_eq_some_iff.mp hp
  cases hm with
  | clearPointer hn' hdone =>
    obtain rfl := Option.some.inj hc
    rw [hn, Option.some.injEq] at hn'
    have hnot := hdone t task (hn' ▸ hcur) ht
    rw [hs] at hnot
    cases hnot
  | reclaim _ hn' hcur' =>
    obtain rfl := Option.some.inj hc
    rw [hn, Option.some.injEq] at hn'
    rw [← hn', hcur] at hcur'
    exact hl (by rw [Label.tid?, Option.some.inj hcur'])
  | @complete m _ tid | @fail m _ tid =>
    obtain rfl := Option.some.inj hc
    have htid := hends m tid rfl
    rw [hp, Option.some.injEq] at htid
    exact hl (by rw [Label.tid?, htid])
  | _ => cases hc

/-- An edit leaves its task where its new status says. -/
theorem TaskCoherent.edit {t : Tid} {task task' : Task} (hcoh : TaskCoherent s t task)
    (hm : Move s l s') (ht : s.task t = some task) (he : Edit s t task l task') :
    TaskCoherent s' t task' := by
  have hholder : ∀ {c : Token}, task.claimToken = some c → task.status.live = true := fun hc ↦
    hcoh.live_of_claimToken (by rw [hc]; exact Option.some_ne_none _)
  cases he with
  | lease =>
    cases hm with
    | lease ht' hs =>
      obtain rfl := Option.some.inj (ht.symm.trans ht')
      obtain ⟨hc, hd, hw, n, hn, hp⟩ := hcoh.live hs
      exact .of_live hs hc hd hw hn hp
  | requeue hr =>
    cases hm with
    | reclaim _ _ _ ht' hs =>
      obtain ⟨rfl, rfl⟩ := Prod.mk.inj (Option.some.inj hr)
      obtain rfl := Option.some.inj (ht.symm.trans ht')
      exact (TaskCoherent.requeue (hcoh.live hs).2.2.1).frame (fun _ ↦ rfl) fun hl ↦ by cases hl
    | rehome _ hq ht' | bounce _ hq ht' =>
      obtain ⟨rfl, rfl⟩ := Prod.mk.inj (Option.some.inj hr)
      obtain rfl := Option.some.inj (ht.symm.trans ht')
      exact TaskCoherent.requeue (s := s.pop _) (hcoh.waits_pop hq)
    | @reject n _ _ _ _ _ ht' _ hc =>
      obtain ⟨rfl, rfl⟩ := Prod.mk.inj (Option.some.inj hr)
      obtain rfl := Option.some.inj (ht.symm.trans ht')
      exact TaskCoherent.requeue (s := s.strike n) (hcoh.live (hholder hc)).2.2.1
    | _ => cases hr
  | claim n key c d =>
    cases hm with
    | take _ hn _ hq _ _ =>
      refine .of_live (n := n) rfl (Option.some_ne_none c) (Option.some_ne_none d)
        (fun key' ↦ hcoh.waits_pop hq key') rfl ?_
      rw [Store.pointer, Store.take_node, Function.update_self, hn]
      rfl
  | start n =>
    cases hm with
    | start _ ht' _ hd' _ =>
      obtain rfl := Option.some.inj (ht.symm.trans ht')
      obtain ⟨hc, hd, hw, n', hn, hp⟩ :=
        hcoh.live (hcoh.live_of_downloadToken (by rw [hd']; exact Option.some_ne_none _))
      exact .of_live rfl hc hd hw hn hp
  | complete =>
    cases hm with
    | complete _ _ ht' _ hc =>
      obtain rfl := Option.some.inj (ht.symm.trans ht')
      exact .of_finished rfl rfl rfl (hcoh.live (hholder hc)).2.2.1
  | fail =>
    cases hm with
    | fail _ _ ht' _ hc =>
      obtain rfl := Option.some.inj (ht.symm.trans ht')
      exact .of_finished rfl rfl rfl (hcoh.live (hholder hc)).2.2.1

/-- A move keeps a task where its status says, or puts it there. -/
theorem TaskCoherent.move {t : Tid} {task' : Task}
    (hcoh : ∀ task, s.task t = some task → TaskCoherent s t task) (hm : Move s l s')
    (hends : ∀ n tid, l.ends = some (n, tid) → s.pointer n = some tid)
    (ht' : s'.task t = some task') : TaskCoherent s' t task' := by
  rcases hm.task_cases ht' with ⟨hs, hno⟩ | ⟨a, rfl, rfl, rfl⟩ | ⟨task₀, hs, he⟩
  · have h := hcoh task' hs
    by_cases htid : l.tid? = some t
    · -- no task at home in a queue is dropped from it
      obtain ⟨key, rfl⟩ := hno.resolve_left (fun hne ↦ hne htid)
      cases hm with
      | discard hq hdrop =>
        obtain ⟨hqueued, hkey⟩ := h.queued_of_mem (hq ▸ List.mem_cons_self)
        rcases hdrop task' hs with hf | hhome
        · rw [hqueued] at hf
          cases hf
        · exact absurd (hkey ▸ homeIn_homeQueue task') hhome
    · exact h.frame (hm.waits_frame htid) fun hlive n _ hp ↦
        hm.pointer_kept hp (hm.clears_ne hends hs hlive hp htid)
  · cases hm with
    | createTask _ hnew =>
      refine .of_queued rfl rfl rfl fun key ↦ ?_
      have hz : s.waits a.tid key = 0 := List.count_eq_zero.mpr (hnew.queue key)
      rw [Store.waits_create, hz, Nat.zero_add]
      exact if_congr (and_iff_left rfl) rfl rfl
  · exact (hcoh task₀ hs).edit hm hs he

/-- The task of a claim token is where its status says, so its node points at it. -/
theorem TaskCoherent.pointer {t : Tid} {task : Task} {n : NodeId} {c : Token}
    (h : TaskCoherent s t task) (ha : task.assignedNode = some n) (hc : task.claimToken = some c) :
    s.pointer n = some t := by
  have hlive := h.live_of_claimToken (by rw [hc]; exact Option.some_ne_none c)
  obtain ⟨-, -, -, n', ha', hp⟩ := h.live hlive
  rw [ha, Option.some.injEq] at ha'
  rwa [ha']

/-- What is not expired stays. -/
theorem Move.task_stays (hm : Move s l s') (hl : l.keepsTasks) {t : Tid} {task : Task}
    (ht : s.task t = some task) : ∃ task', s'.task t = some task' := by
  cases hm with
  | expire => exact hl.elim
  | createTask a =>
    by_cases hu : t = a.tid
    · exact ⟨a.task s.clock, by rw [hu, Store.create_task, Function.update_self]⟩
    · exact ⟨task, by rw [Store.create_task, Function.update_of_ne hu, ht]⟩
  | lease | reclaim | rehome | bounce | take | start | complete | fail | reject =>
    rcases update_map_some ht _ _ with hnew | hold
    · exact ⟨_, hnew⟩
    · exact ⟨task, hold⟩
  | _ => exact ⟨task, ht⟩

/-- A holder's token is that of a live task. -/
theorem Coherent.holder (h : Coherent s) {t : Tid} {task : Task} {c : Token}
    (ht : s.task t = some task) (hc : task.claimToken = some c) : task.status.live = true :=
  (h t task ht).live_of_claimToken (by rw [hc]; exact Option.some_ne_none c)

/-- A task is ended by the node that points at it. -/
theorem Coherent.ends (h : Coherent s) (hm : Move s l s') {n : NodeId} {tid : Tid}
    (hl : l.ends = some (n, tid)) : s.pointer n = some tid := by
  cases hm with
  | complete _ _ ht ha hc | fail _ _ ht ha hc =>
    obtain ⟨rfl, rfl⟩ := Prod.mk.inj (Option.some.inj hl)
    exact (h _ _ ht).pointer ha hc
  | _ => cases hl

theorem Coherent.move (h : Coherent s) (hm : Move s l s') : Coherent s' := fun _ _ ht ↦
  TaskCoherent.move (fun task hs ↦ h _ task hs) hm (fun _ _ ↦ h.ends hm) ht

theorem Backed.move (h : Backed s) (hm : Move s l s') (hl : l.keepsTasks) : Backed s' := by
  intro key t hmem
  by_cases htid : l.tid? = some t
  · have hex : (∃ a, l = .createTask a ∧ a.tid = t) ∨ ∃ task, s.task t = some task := by
      rcases hm.tid_cases htid with hc | rfl | hex | ⟨key', hq⟩
      · exact .inl hc
      · exact hl.elim
      · exact .inr hex
      · exact .inr (h key' t hq)
    rcases hex with ⟨a, rfl, rfl⟩ | ⟨task, ht⟩
    · cases hm
      exact ⟨a.task s.clock, by rw [Store.create_task, Function.update_self]⟩
    · exact hm.task_stays hl ht
  · rw [Store.mem_queue_iff, hm.waits_frame htid, ← Store.mem_queue_iff] at hmem
    obtain ⟨task, ht⟩ := h key t hmem
    exact hm.task_stays hl ht

/-- A coherent task is tame. -/
theorem TaskCoherent.tame {t : Tid} {task : Task} (h : TaskCoherent s t task) :
    TaskTame s t task := by
  refine ⟨fun hl ↦ ?_, fun key ↦ ?_⟩
  · rcases task.status.cases with hs | hs | hs
    · exact ⟨(h.queued hs).1, (h.queued hs).2.1⟩
    · exact absurd hs hl
    · exact ⟨(h.finished hs).1, (h.finished hs).2.1⟩
  · rcases task.status.cases with hs | hs | hs
    · rw [(h.queued hs).2.2 key]
      exact le_of_eq (if_congr (by simp [hs]) rfl rfl)
    · rw [(h.live hs).2.2.1 key]
      exact Nat.zero_le _
    · rw [(h.finished hs).2.2 key]
      exact Nat.zero_le _

/-- Nothing changes a finished task, but its expiry. -/
theorem Coherent.finished_final (h : Coherent s) (hm : Move s l s') {t : Tid} {task : Task}
    (ht : s.task t = some task) (hf : task.status.finished = true) :
    s'.task t = some task ∨ s'.task t = none :=
  Tame.finished_final (fun u task' hu ↦ (h u task' hu).tame) hm ht hf

/-- In a coherent state `_pop_queue_tid` takes the front of the queue it reads and drops nothing. -/
theorem Coherent.wp_popQueueTid (h : Coherent s) (hb : Backed s) {key : QueueKey} {nodeId : NodeId}
    {allowUnassigned : Bool} (hkey : key.readBy nodeId allowUnassigned) :
    wp (popQueueTid key nodeId allowUnassigned)
      (fun o s' ↦ o = (s.queue key).head? ∧ s' = s.pop key) s := by
  refine wp_whileTrue (fun s₁ ↦ s₁ = s) (fun _ ↦ 0) (fun s₁ hs₁ ↦ ?_) rfl
  subst hs₁
  rw [popOne, wp_bind, Server.wp_lpop]
  cases hq : s₁.queue key with
  | nil => exact (wp_pure _ _ _).mpr ⟨rfl, rfl⟩
  | cons tid rest =>
    have hmem : tid ∈ s₁.queue key := hq ▸ List.mem_cons_self
    obtain ⟨task, ht⟩ := hb key tid hmem
    have hhome := ((h tid task ht).queued_of_mem hmem).2
    have hkeeps : popKeeps nodeId allowUnassigned task = true := by
      by_contra hk
      exact not_homeIn_of_not_keeps hkey (by simpa using hk) (hhome ▸ homeIn_homeQueue task)
    simp only [List.head?_cons, wp_bind, Server.wp_read, Store.pop_task, ht, hkeeps, if_true,
      wp_pure, optionPost, and_self]

theorem Run.coherent [Sha256] {tr : List Entry} (h : Run tr s) : Coherent s :=
  h.invariant (P := fun _ ↦ True) (fun _ _ _ t task ht ↦ by cases ht)
    (fun _ _ _ _ hm hs ↦ hs.move hm) fun _ _ _ _ ↦ trivial

theorem Run.backed [Sha256] {tr : List Entry} (h : Run tr s)
    (hkeep : ∀ e ∈ tr, ∀ tid, e.action ≠ .expireTask tid) : Backed s := by
  refine h.invariant (P := Label.keepsTasks) (fun _ _ _ key t ht ↦ by cases ht)
    (fun s l s' hl hm hs ↦ hs.move hm hl) fun e he l hl ↦ ?_
  cases l with
  | expire tid => exact hkeep e he tid hl.expire
  | _ => trivial

/-- In every reachable state every task is where its status says, and a claim takes the front of
each queue it reads. -/
theorem reachable_queue_coherence [Sha256] {tr : List Entry} (h : Run tr s)
    (hkeep : ∀ e ∈ tr, ∀ tid, e.action ≠ .expireTask tid) :
    (∀ t task, s.task t = some task → TaskCoherent s t task) ∧
      ∀ (key : QueueKey) nodeId allowUnassigned, key.readBy nodeId allowUnassigned →
        wp (popQueueTid key nodeId allowUnassigned)
          (fun o s' ↦ o = (s.queue key).head? ∧ s' = s.pop key) s :=
  ⟨h.coherent, fun _ _ _ hkey ↦ h.coherent.wp_popQueueTid (h.backed hkeep) hkey⟩

open Sample in
theorem reachable_queue_coherence_claimed :
    let tr := performed 200 server [.tick second, join nodeA keyA none, create task1 (some nodeA),
      .claim authA claim1 download1]
    ((lastStore server tr).task task1).map (·.status) = some .claimed ∧
      ∀ t task, (lastStore server tr).task t = some task →
        TaskCoherent (lastStore server tr) t task := by
  refine ⟨by decide +kernel, (reachable_queue_coherence (run_performed (by decide +kernel)
    (by decide +kernel)) fun e he tid h ↦ ?_).1⟩
  have ha := performed_actions he
  rw [h] at ha
  simp [join, create] at ha

end TandemAio
