import TandemAio.Membership

/-!
# One failover pass

A sweep leaves dead members without work.  Each of their tasks is queued once, on the first healthy
node that can run it or, when there is none, in the unassigned queue of its runtime; nothing else is
taken from a queue, and what is finished stays.
-/

open Reasoning Reasoning.Prog

namespace TandemAio

variable {s s₁ s₂ s' : Store} {l : Label}

namespace Store

/-- A node that can take over work of a dead one. -/
def takesOver (s : Store) (dead : NodeId) (runtime : Runtime) (m : NodeId) : Prop :=
  m ∈ s.nodes ∧ m ≠ dead ∧ ∃ node, s.node m = some node ∧
    isNodeHealthy node s.clock = true ∧ nodeSupportsRuntime node (some runtime) = true

/-- Where work of a dead node goes: to the first node that can take it over, if there is one. -/
def goesTo (s : Store) (dead : NodeId) (runtime : Runtime) : Option NodeId → Prop
  | some m => s.takesOver dead runtime m ∧ ∀ m', s.takesOver dead runtime m' → m ≤ m'
  | none => ∀ m, ¬s.takesOver dead runtime m

/-- What a dead node leaves: the live task it points at, and the tasks that wait in its queue. -/
def leftBy (s : Store) (n : NodeId) (t : Tid) (task : Task) : Prop :=
  (s.pointer n = some t ∧ task.status.live = true) ∨
    (t ∈ s.queue (.node n) ∧ task.status = .queued)

/-- A task of a dead node is queued once, with empty tokens, where its work goes. -/
structure TakenOver (s : Store) (n : NodeId) (t : Tid) (task : Task) (s' : Store)
    (destination : Option NodeId) (task' : Task) : Prop where
  goes : s.goesTo n task.runtime destination
  stored : s'.task t = some task'
  queued : task'.status = .queued
  assigned : task'.assignedNode = destination
  tokens : task'.claimToken = none ∧ task'.downloadToken = none
  once : ∀ key, s'.waits t key = if key = homeQueue destination task.runtime then 1 else 0

/-- What a failover pass makes of a state. -/
structure Recovered (s s' : Store) : Prop where
  emptied : ∀ n, s.dead n → s'.pointer n = none ∧ s'.queue (.node n) = []
  takenOver : ∀ n t task, s.dead n → s.task t = some task → s.leftBy n t task →
    ∃ destination task', s.TakenOver n t task s' destination task'
  /-- Tasks of one queue that go to one queue keep their order. -/
  order : ∀ n key, s.dead n → ((s.queue (.node n)).filter fun t ↦
    (s.task t).isSome && decide (t ∈ s'.queue key)).Sublist (s'.queue key)
  appended : ∀ key, (∀ n, s.dead n → key ≠ .node n) → s.queue key <+: s'.queue key
  finished : ∀ t task, s.task t = some task → task.status.finished = true →
    s'.task t = some task

/-! ## Destinations -/

/-- The head of the sorted list is the first node that can take work over. -/
theorem goesTo_head (s : Store) (n : NodeId) (runtime : Runtime) :
    s.goesTo n runtime (s.healthyNodeIds (some n) (some runtime)).head? := by
  have hmem : ∀ m, m ∈ s.healthyNodeIds (some n) (some runtime) ↔ s.takesOver n runtime m := by
    intro m
    rw [mem_healthyNodeIds, takesOver, ne_eq, ne_eq, Option.some_inj, eq_comm]
  have hsorted : (s.healthyNodeIds (some n) (some runtime)).Pairwise (· ≤ ·) :=
    (List.pairwise_insertionSort _ s.nodes).filter _
  cases hids : s.healthyNodeIds (some n) (some runtime) with
  | nil =>
    intro m hm
    rw [← hmem, hids] at hm
    cases hm
  | cons m rest =>
    rw [hids] at hmem hsorted
    refine ⟨(hmem m).mp List.mem_cons_self, fun m' hm' ↦ ?_⟩
    rcases List.mem_cons.mp ((hmem m').mpr hm') with rfl | hrest
    · exact le_refl _
    · exact (List.pairwise_cons.mp hsorted).1 m' hrest

/-- The same members with the same hashes, but for their current tasks. -/
structure SameMembers (s s₁ : Store) : Prop where
  clock : s₁.clock = s.clock
  nodes : s₁.nodes = s.nodes
  node : ∀ n, (s₁.node n).map Node.clearCurrentTask = (s.node n).map Node.clearCurrentTask

/-- Where a sweep sends tasks of a runtime. -/
def destination (s : Store) (runtime : Runtime) : Option NodeId :=
  (s.healthyNodeIds none (some runtime)).head?

theorem SameMembers.listsNode (h : SameMembers s s₁) (exclude : Option NodeId)
    (runtime : Option Runtime) (n : NodeId) :
    s₁.listsNode exclude runtime n = s.listsNode exclude runtime n := by
  have hnode := h.node n
  unfold Store.listsNode
  rw [h.clock]
  cases hn : s.node n with
  | none =>
    rw [hn, Option.map_none, Option.map_eq_none_iff] at hnode
    rw [hnode]
  | some node =>
    rw [hn, Option.map_some] at hnode
    obtain ⟨node₁, hn₁, heq⟩ := Option.map_eq_some_iff.mp hnode
    have hhealth : isNodeHealthy node₁ s.clock = isNodeHealthy node s.clock := by
      show isNodeHealthy node₁.clearCurrentTask s.clock =
        isNodeHealthy node.clearCurrentTask s.clock
      rw [heq]
    have hruns : nodeSupportsRuntime node₁ runtime = nodeSupportsRuntime node runtime := by
      show nodeSupportsRuntime node₁.clearCurrentTask runtime =
        nodeSupportsRuntime node.clearCurrentTask runtime
      rw [heq]
    rw [hn₁]
    dsimp only
    rw [hhealth, hruns]

/-- The dead node is none of the healthy ones, so the destination does not depend on it. -/
theorem SameMembers.destination (h : SameMembers s s₁) {n : NodeId} (hdead : s.dead n)
    (runtime : Runtime) :
    (s₁.healthyNodeIds (some n) (some runtime)).head? = s.destination runtime := by
  have hids : s₁.healthyNodeIds (some n) (some runtime) =
      s.healthyNodeIds none (some runtime) := by
    unfold healthyNodeIds allNodeIds
    rw [h.nodes]
    apply List.filter_congr
    intro m _
    rw [h.listsNode]
    by_cases hm : m = n
    · obtain ⟨-, node, hn, hh⟩ := hdead
      unfold Store.listsNode
      rw [hm, hn]
      simp [hh]
    · unfold Store.listsNode
      simp [Ne.symm hm]
  unfold Store.destination
  rw [hids]

theorem destination_not_dead (s : Store) {n : NodeId} (hdead : s.dead n)
    (runtime runtime' : Runtime) : homeQueue (s.destination runtime) runtime' ≠ .node n := by
  intro heq
  have hhead := homeQueue_eq_node heq.symm
  exact SameRoster.not_healthy hdead _ _ (List.mem_of_mem_head? hhead)

end Store

/-! ## One move of a sweep -/

/-- The moves of a sweep that starts in `s`. -/
def Label.sweeps (s : Store) (l : Label) : Prop := l.stale ∨ ∃ n, s.dead n ∧ l.drains n

theorem Label.sweeps.passes (h : l.sweeps s) : l.stale ∨ l.drain :=
  h.imp_right fun ⟨_, _, hl⟩ ↦ hl.drain

theorem Store.SameMembers.move (h : s.SameMembers s₁) (hm : Move s₁ l s₂) (hl : l.sweeps s) :
    s.SameMembers s₂ := by
  have hclear : ∀ m n, (Function.update s₁.node m ((s₁.node m).map Node.clearCurrentTask) n).map
      Node.clearCurrentTask = (s₁.node n).map Node.clearCurrentTask := by
    intro m n
    by_cases he : n = m
    · rw [he, Function.update_self, Option.map_map]
      rfl
    · rw [Function.update_of_ne he]
  cases hm with
  | clearPointer | reclaim => exact ⟨h.clock, h.nodes, fun n ↦ (hclear _ n).trans (h.node n)⟩
  | rehome | discard => exact ⟨h.clock, h.nodes, h.node⟩
  | _ => rcases hl with hl | ⟨_, _, hl⟩ <;> exact hl.elim

/-- A task that a sweep queues again is not finished, and goes to the destination of its runtime. -/
theorem Move.sweeps_requeue (hm : Move s₁ l s₂) (hl : l.sweeps s) (hs : s.SameMembers s₁)
    (hdead : ∀ n, s₁.dead n → s.dead n) {t : Tid} {d : Option NodeId}
    (hr : l.requeues = some (t, d)) : ∃ task, s₁.task t = some task ∧
      task.status.finished = false ∧ d = s.destination task.runtime := by
  have hlive : ∀ {status : TaskStatus}, status = .queued ∨ status.live = true →
      status.finished = false := by
    rintro (_ | _ | _ | _ | _) hq <;> simp_all [TaskStatus.live, TaskStatus.finished]
  cases hm with
  | reclaim hd _ _ ht hs' =>
    cases hr
    exact ⟨_, ht, hlive (.inr hs'), hs.destination (hdead _ hd) _⟩
  | rehome hd _ ht hs' =>
    cases hr
    exact ⟨_, ht, hlive hs', hs.destination (hdead _ hd) _⟩
  | bounce | reject => rcases hl with hl | ⟨_, _, hl⟩ <;> exact hl.elim
  | _ => cases hr

/-- What a move of a sweep does to the queues. -/
theorem Move.sweeps_queue (hm : Move s₁ l s₂) (hl : l.sweeps s) (hs : s.SameMembers s₁)
    (hdead : ∀ n, s₁.dead n → s.dead n) :
    s₂.queue = s₁.queue ∨
    (∃ t task, s₁.task t = some task ∧ ∀ key, s₂.queue key = s₁.queue key ++
      if key = homeQueue (s.destination task.runtime) task.runtime then [t] else []) ∨
    (∃ n t rest task, s.dead n ∧ s₁.queue (.node n) = t :: rest ∧ s₁.task t = some task ∧
      ∀ key, s₂.queue key = (if key = .node n then rest else s₁.queue key) ++
        if key = homeQueue (s.destination task.runtime) task.runtime then [t] else []) ∨
    ∃ n t rest, s.dead n ∧ s₁.queue (.node n) = t :: rest ∧
      (∀ task, s₁.task t = some task →
        task.status.finished = true ∨ ¬Store.homeIn task (.node n)) ∧
      ∀ key, s₂.queue key = if key = .node n then rest else s₁.queue key := by
  have hpush : ∀ (queue : QueueKey → List Tid) (home key : QueueKey) (t : Tid),
      Function.update queue home (queue home ++ [t]) key =
        queue key ++ if key = home then [t] else [] := by
    intro queue home key t
    by_cases he : key = home
    · rw [he, Function.update_self, if_pos rfl]
    · rw [Function.update_of_ne he, if_neg he, List.append_nil]
  have hpop : ∀ (n : NodeId) (t : Tid) (rest : List Tid) (key : QueueKey),
      s₁.queue (.node n) = t :: rest →
      (s₁.pop (.node n)).queue key = if key = .node n then rest else s₁.queue key := by
    intro n t rest key hq
    rw [Store.pop_queue, Function.update_apply, hq, List.tail_cons]
  cases hm with
  | clearPointer => exact .inl rfl
  | @reclaim n node t task hd _ _ ht _ =>
    refine .inr (.inl ⟨t, task, ht, fun key ↦ ?_⟩)
    rw [hs.destination (hdead n hd)]
    exact hpush _ _ _ _
  | @rehome n t rest task hd hq ht _ =>
    refine .inr (.inr (.inl ⟨n, t, rest, task, hdead n hd, hq, ht, fun key ↦ ?_⟩))
    rw [hs.destination (hdead n hd), Store.requeue_queue, hpush, hpop n t rest key hq]
  | @discard key t rest hq hdrop =>
    rcases hl with hl | ⟨n, hd, hl⟩
    · exact hl.elim
    · obtain rfl : key = .node n := hl
      exact .inr (.inr (.inr ⟨n, t, rest, hd, hq, hdrop, fun key ↦ hpop n t rest key hq⟩))
  | _ => rcases hl with hl | ⟨_, _, hl⟩ <;> exact hl.elim

/-! ## The whole sweep -/

/-- Whether a task is one that a sweep sends to a queue. -/
def Store.sends (s : Store) (key : QueueKey) (t : Tid) : Bool :=
  match s.task t with
  | none => false
  | some task => homeQueue (s.destination task.runtime) task.runtime == key

/-- What has become of `s` in the course of a sweep. -/
structure Sweeping (s s₁ : Store) : Prop where
  coherent : Coherent s₁
  members : s.SameMembers s₁
  dead : ∀ n, s₁.dead n → s.dead n
  task : ∀ t task, s.task t = some task → s₁.task t = some task ∨
    (task.status.finished = false ∧
      s₁.task t = some (task.requeue (s.destination task.runtime) s.clock))
  fresh : ∀ t, s.task t = none → s₁.task t = none
  pointer : ∀ n t, s.pointer n = some t → s₁.pointer n = some t ∨
    ∀ task, s₁.task t = some task → task.status.live = false
  appended : ∀ key, (∀ n, s.dead n → key ≠ .node n) → s.queue key <+: s₁.queue key
  /-- What has left the queue of a dead node stands in its order where it went. -/
  drained : ∀ n, s.dead n → ∃ gone, s.queue (.node n) = gone ++ s₁.queue (.node n) ∧
    ∀ key, (∀ m, s.dead m → key ≠ .node m) → (gone.filter (s.sends key)).Sublist (s₁.queue key)

theorem Sweeping.refl (h : Coherent s) : Sweeping s s where
  coherent := h
  members := ⟨rfl, rfl, fun _ ↦ rfl⟩
  dead _ hd := hd
  task _ _ ht := .inl ht
  fresh _ ht := ht
  pointer _ _ hp := .inl hp
  appended _ _ := List.prefix_refl _
  drained _ _ := ⟨[], rfl, fun _ _ ↦ List.nil_sublist _⟩

/-- The runtime of a task is that of the task at the start. -/
theorem Sweeping.sends (h : Sweeping s s₁) {t : Tid} {task : Task} (ht : s₁.task t = some task)
    (key : QueueKey) :
    s.sends key t = (homeQueue (s.destination task.runtime) task.runtime == key) := by
  unfold Store.sends
  cases hs : s.task t with
  | none =>
    rw [h.fresh t hs] at ht
    cases ht
  | some task₀ =>
    rcases h.task t task₀ hs with hsame | ⟨-, hmoved⟩
    · rw [hsame] at ht
      cases ht
      rfl
    · rw [hmoved] at ht
      cases ht
      rfl

/-- A move of a sweep leaves a task as it is or queues it again. -/
theorem Sweeping.edit (h : Sweeping s s₁) (hm : Move s₁ l s₂) (hl : l.sweeps s) {t : Tid}
    {task₂ : Task} (ht : s₂.task t = some task₂) : s₁.task t = some task₂ ∨
    ∃ task₁, s₁.task t = some task₁ ∧ task₁.status.finished = false ∧
      task₂ = task₁.requeue (s.destination task₁.runtime) s.clock := by
  rcases hm.task_cases ht with ⟨hs, -⟩ | ⟨a, rfl, -⟩ | ⟨task₁, hs, he⟩
  · exact .inl hs
  · rcases hl with hl | ⟨_, _, hl⟩ <;> exact hl.elim
  · cases he with
    | requeue hr =>
      obtain ⟨task, ht₁, hnot, rfl⟩ := hm.sweeps_requeue hl h.members h.dead hr
      rw [hs, Option.some.injEq] at ht₁
      subst ht₁
      exact .inr ⟨task₁, hs, hnot, by rw [h.members.clock]⟩
    | _ => rcases hl with hl | ⟨_, _, hl⟩ <;> exact hl.elim

theorem Label.sweeps.keepsTasks (h : l.sweeps s) : l.keepsTasks := by
  cases l with
  | expire => rcases h with h | ⟨_, _, h⟩ <;> exact h.elim
  | _ => trivial

theorem Sweeping.stored (h : Sweeping s s₁) {t : Tid} {task : Task} (ht : s.task t = some task) :
    ∃ task₁, s₁.task t = some task₁ := by
  rcases h.task t task ht with hs | ⟨-, hs⟩
  · exact ⟨_, hs⟩
  · exact ⟨_, hs⟩

theorem Sweeping.move_task (h : Sweeping s s₁) (hm : Move s₁ l s₂) (hl : l.sweeps s) {t : Tid}
    {task : Task} (ht : s.task t = some task) : s₂.task t = some task ∨
    (task.status.finished = false ∧
      s₂.task t = some (task.requeue (s.destination task.runtime) s.clock)) := by
  obtain ⟨task₁, ht₁⟩ := h.stored ht
  obtain ⟨task₂, ht₂⟩ := hm.task_stays hl.keepsTasks ht₁
  rcases h.edit hm hl ht₂ with hsame | ⟨task₁', ht₁', hnot, rfl⟩
  · rw [ht₂, ← hsame]
    exact h.task t task ht
  · rcases h.task t task ht with hs | ⟨hfinished, hs⟩
    · rw [hs] at ht₁'
      cases ht₁'
      exact .inr ⟨hnot, ht₂⟩
    · -- queued again, as it already was
      rw [hs] at ht₁'
      cases ht₁'
      exact .inr ⟨hfinished, ht₂⟩

theorem Sweeping.move_pointer (h : Sweeping s s₁) (hm : Move s₁ l s₂) (hl : l.sweeps s)
    {n : NodeId} {t : Tid} (hp : s.pointer n = some t) : s₂.pointer n = some t ∨
    ∀ task, s₂.task t = some task → task.status.live = false := by
  have hkeep : (∀ task, s₁.task t = some task → task.status.live = false) →
      ∀ task, s₂.task t = some task → task.status.live = false := by
    intro hnot task ht
    rcases h.edit hm hl ht with hs | ⟨task₁, -, -, rfl⟩
    · exact hnot task hs
    · rfl
  rcases h.pointer n t hp with hp₁ | hnot
  · by_cases hc : l.clears = some n
    · right
      obtain ⟨node, hn, hcur⟩ := Option.bind_eq_some_iff.mp hp₁
      cases hm with
      | clearPointer hn' hdone =>
        cases hc
        rw [hn, Option.some.injEq] at hn'
        intro task ht
        exact hdone t task (hn' ▸ hcur) ht
      | reclaim _ hn' hcur' =>
        cases hc
        rw [hn, Option.some.injEq] at hn'
        rw [← hn', hcur, Option.some.injEq] at hcur'
        intro task ht
        rw [hcur', Store.clearPointer_task, Store.requeue_task, Function.update_self] at ht
        obtain ⟨task₁, -, rfl⟩ := Option.map_eq_some_iff.mp ht
        rfl
      | complete | fail => rcases hl with hl | ⟨_, _, hl⟩ <;> exact hl.elim
      | _ => cases hc
    · exact .inl (hm.pointer_kept hp₁ hc)
  · exact .inr (hkeep hnot)

theorem Sweeping.move_appended (h : Sweeping s s₁) (hm : Move s₁ l s₂) (hl : l.sweeps s)
    {key : QueueKey} (hkey : ∀ n, s.dead n → key ≠ .node n) : s.queue key <+: s₂.queue key := by
  have hbefore := h.appended key hkey
  rcases hm.sweeps_queue hl h.members h.dead with
    heq | ⟨t, task, -, heq⟩ | ⟨n, t, rest, task, hd, -, -, heq⟩ | ⟨n, t, rest, hd, -, -, heq⟩
  · rw [heq]
    exact hbefore
  · rw [heq key]
    exact hbefore.trans (List.prefix_append _ _)
  · rw [heq key, if_neg (hkey n hd)]
    exact hbefore.trans (List.prefix_append _ _)
  · rw [heq key, if_neg (hkey n hd)]
    exact hbefore

theorem Sweeping.move_drained (h : Sweeping s s₁) (hm : Move s₁ l s₂) (hl : l.sweeps s)
    {n : NodeId} (hn : s.dead n) : ∃ gone, s.queue (.node n) = gone ++ s₂.queue (.node n) ∧
      ∀ key, (∀ m, s.dead m → key ≠ .node m) →
        (gone.filter (s.sends key)).Sublist (s₂.queue key) := by
  obtain ⟨gone, hgone, hsub⟩ := h.drained n hn
  rcases hm.sweeps_queue hl h.members h.dead with
    heq | ⟨t, task, -, heq⟩ | ⟨m, t, rest, task, hd, hq, ht, heq⟩ | ⟨m, t, rest, hd, hq, hdrop, heq⟩
  · rw [heq]
    exact ⟨gone, hgone, hsub⟩
  · -- a task is reclaimed
    refine ⟨gone, ?_, fun key hkey ↦ ?_⟩
    · rw [heq, if_neg (s.destination_not_dead hn _ _).symm, List.append_nil, hgone]
    · rw [heq key]
      exact (hsub key hkey).trans (List.sublist_append_left _ _)
  · by_cases hmn : m = n
    · -- the first task of this queue goes to its destination
      subst hmn
      refine ⟨gone ++ [t], ?_, fun key hkey ↦ ?_⟩
      · rw [heq, if_pos rfl, if_neg (s.destination_not_dead hn _ _).symm, List.append_nil, hgone,
          hq, List.append_assoc]
        rfl
      · rw [heq key, if_neg (hkey m hn), List.filter_append]
        apply (hsub key hkey).append
        by_cases hk : key = homeQueue (s.destination task.runtime) task.runtime
        · rw [if_pos hk]
          exact List.filter_sublist
        · have hnot : s.sends key t = false := by
            rw [h.sends ht key]
            simpa using Ne.symm hk
          rw [List.filter_cons_of_neg (by simp [hnot])]
          exact List.nil_sublist _
    · refine ⟨gone, ?_, fun key hkey ↦ ?_⟩
      · rw [heq, if_neg (by simpa using Ne.symm hmn),
          if_neg (s.destination_not_dead hn _ _).symm, List.append_nil, hgone]
      · rw [heq key, if_neg (hkey m hd)]
        exact (hsub key hkey).trans (List.sublist_append_left _ _)
  · by_cases hmn : m = n
    · -- what is dropped is no task
      subst hmn
      have hnone : s.task t = none := by
        cases hs : s.task t with
        | none => rfl
        | some task =>
          obtain ⟨task₁, ht₁⟩ := h.stored hs
          obtain ⟨hqueued, hhome⟩ := (h.coherent t task₁ ht₁).queued_of_mem
            (hq ▸ List.mem_cons_self)
          rcases hdrop task₁ ht₁ with hfinished | haway
          · rw [hqueued] at hfinished
            cases hfinished
          · exact absurd (hhome ▸ homeIn_homeQueue task₁) haway
      refine ⟨gone ++ [t], ?_, fun key hkey ↦ ?_⟩
      · rw [heq, if_pos rfl, hgone, hq, List.append_assoc]
        rfl
      · have hnot : s.sends key t = false := by
          unfold Store.sends
          rw [hnone]
        rw [heq key, if_neg (hkey m hn), List.filter_append,
          List.filter_cons_of_neg (by simp [hnot]), List.filter_nil, List.append_nil]
        exact hsub key hkey
    · refine ⟨gone, ?_, fun key hkey ↦ ?_⟩
      · rw [heq, if_neg (by simpa using Ne.symm hmn), hgone]
      · rw [heq key, if_neg (hkey m hd)]
        exact hsub key hkey

theorem Sweeping.move (h : Sweeping s s₁) (hm : Move s₁ l s₂) (hl : l.sweeps s) :
    Sweeping s s₂ where
  coherent := h.coherent.move hm
  members := h.members.move hm hl
  dead n hd := h.dead n ((Via.single hm hl.passes).dead_iff.mp hd)
  task _ _ ht := h.move_task hm hl ht
  fresh t ht := by
    cases ht₂ : s₂.task t with
    | none => rfl
    | some task₂ =>
      rcases h.edit hm hl ht₂ with hs | ⟨task₁, hs, -⟩
      · rw [h.fresh t ht] at hs
        cases hs
      · rw [h.fresh t ht] at hs
        cases hs
  pointer _ _ hp := h.move_pointer hm hl hp
  appended _ hkey := h.move_appended hm hl hkey
  drained _ hn := h.move_drained hm hl hn

/-- A task that a dead node leaves is taken over. -/
theorem Sweeping.takenOver (h : Sweeping s s') (hs : Coherent s) {n : NodeId} (hd : s.dead n)
    (hempty : s'.pointer n = none ∧ s'.queue (.node n) = []) {t : Tid} {task : Task}
    (ht : s.task t = some task) (hleft : s.leftBy n t task) :
    s.TakenOver n t task s' (s.destination task.runtime)
      (task.requeue (s.destination task.runtime) s.clock) := by
  have hmoved : s'.task t = some (task.requeue (s.destination task.runtime) s.clock) := by
    rcases h.task t task ht with hsame | ⟨-, hmoved⟩
    · rcases hleft with ⟨hp, hlive⟩ | ⟨hmem, -⟩
      · rcases h.pointer n t hp with hp' | hnot
        · rw [hempty.1] at hp'
          cases hp'
        · rw [hnot task hsame] at hlive
          cases hlive
      · -- it would still wait where it waited
        obtain ⟨hqueued, hhome⟩ := (hs t task ht).queued_of_mem hmem
        have hwaits := ((h.coherent t task hsame).queued hqueued).2.2 (.node n)
        rw [if_pos hhome, Store.waits, hempty.2] at hwaits
        cases hwaits
    · exact hmoved
  have hmembers : s.SameMembers s := ⟨rfl, rfl, fun _ ↦ rfl⟩
  exact {
    goes := hmembers.destination hd task.runtime ▸ s.goesTo_head n task.runtime
    stored := hmoved
    queued := rfl
    assigned := rfl
    tokens := ⟨rfl, rfl⟩
    once := ((h.coherent t _ hmoved).queued rfl).2.2 }

/-- In a coherent state a failover pass ends and recovers all work of dead members. -/
theorem sweep_recovers (h : Coherent s) : wp sweepStaleWork (fun _ s' ↦ s.Recovered s') s := by
  refine ((wp_sweepStaleWork_dead s).and (wp_sweepStaleWork_reclaims s)).mono
    fun _ s' ⟨hv, hempty⟩ ↦ ?_
  have hsweep : Sweeping s s' := hv.invariant (I := Sweeping s)
    (fun _ _ _ hl hm hs ↦ hs.move hm hl) (.refl h)
  refine ⟨hempty, fun n t task hd ht hleft ↦
    ⟨_, _, hsweep.takenOver h hd (hempty n hd) ht hleft⟩, fun n key hd ↦ ?_, hsweep.appended,
    fun t task ht hfinished ↦ ?_⟩
  · by_cases hkey : ∀ m, s.dead m → key ≠ .node m
    · obtain ⟨gone, hgone, hsub⟩ := hsweep.drained n hd
      rw [(hempty n hd).2, List.append_nil] at hgone
      rw [hgone]
      -- a task that stands in the queue was sent to it
      have hsends : ∀ t ∈ gone, ((s.task t).isSome && decide (t ∈ s'.queue key)) =
          (((s.task t).isSome && decide (t ∈ s'.queue key)) && s.sends key t) := by
        intro t ht
        cases hs : s.task t with
        | none => rfl
        | some task =>
          by_cases hmem : t ∈ s'.queue key
          · have hqueue : t ∈ s.queue (.node n) := hgone ▸ ht
            have hqueued := ((h t task hs).queued_of_mem hqueue).1
            have htaken := hsweep.takenOver h hd (hempty n hd) hs (.inr ⟨hqueue, hqueued⟩)
            have hhome : key = homeQueue (s.destination task.runtime) task.runtime := by
              by_contra hne
              have hwaits := htaken.once key
              rw [if_neg hne] at hwaits
              exact Store.mem_queue_iff.mp hmem hwaits
            have hsent : s.sends key t = true := by
              unfold Store.sends
              rw [hs]
              simp [hhome]
            rw [hsent, Bool.and_true]
          · simp [hmem]
      rw [List.filter_congr hsends, ← List.filter_filter]
      exact List.filter_sublist.trans (hsub key hkey)
    · push Not at hkey
      obtain ⟨m, hm, rfl⟩ := hkey
      rw [(hempty m hm).2, List.filter_eq_nil_iff.mpr (by simp)]
  · rcases hsweep.task t task ht with hsame | ⟨hnot, -⟩
    · exact hsame
    · rw [hnot] at hfinished
      cases hfinished

open Sample in
/-- `nodeA` runs one task and has another in its queue when it falls silent; `nodeB` is there. -/
theorem sweep_recovers_nodeA :
    let tr := performed 200 server [.tick second, join nodeA keyA none, create task1 (some nodeA),
      .claim authA claim1 download1, create task2 (some nodeA), .tick (100 * second),
      join nodeB keyB none]
    let s := lastStore server tr
    (s.pointer nodeA = some task1 ∧ s.queue (.node nodeA) = [task2] ∧
      (s.node nodeA).map (isNodeHealthy · s.clock) = some false ∧ s.nodes.length = 2) ∧
      wp sweepStaleWork (fun _ s' ↦ s.Recovered s') s := by
  refine ⟨by decide +kernel, sweep_recovers ?_⟩
  exact (run_performed (by decide +kernel) (by decide +kernel)).coherent

end TandemAio
