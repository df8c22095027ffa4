import TandemAio.Effects

/-!
# Moves

Every request is a sequence of moves: the transfer of one task from where it is to where it goes
next, or a write that moves no task.  A move carries in its premises what the code has checked
when it makes the write.  Invariants of the server are proved move by move.
-/

open Reasoning Reasoning.Prog

namespace TandemAio

inductive Label
  | tick (now : Time)
  | expire (tid : Tid)
  | register (a : Register)
  | publicKey (nodeId : NodeId) (key : PublicKey)
  | createJob (a : CreateJob)
  | createTask (a : CreateTask)
  | refresh (jobId : JobId)
  | heartbeat (nodeId : NodeId)
  | lease (tid : Tid)
  /-- A node's `current_task` is cleared because it is no live task. -/
  | clearPointer (nodeId : NodeId)
  /-- The live task of a dead node goes back to a queue. -/
  | reclaim (nodeId : NodeId) (tid : Tid) (destination : Option NodeId)
  /-- A task waiting in a dead node's queue goes to another queue. -/
  | rehome (nodeId : NodeId) (tid : Tid) (destination : Option NodeId)
  /-- An id leaves a queue and goes nowhere. -/
  | discard (key : QueueKey) (tid : Tid)
  /-- A claim gives a task back that its node cannot run. -/
  | bounce (nodeId : NodeId) (key : QueueKey) (tid : Tid)
  | take (nodeId : NodeId) (key : QueueKey) (tid : Tid) (claimToken downloadToken : Token)
  | start (nodeId : NodeId) (tid : Tid)
  /-- The key row of a task is deleted after a download. -/
  | unwrap (tid : Tid)
  | charge (apiKey : ApiKey) (amount : Int)
  | complete (nodeId : NodeId) (tid : Tid) (resultBytes : List UInt8)
  | fail (nodeId : NodeId) (tid : Tid)
  /-- A receipt does not verify. -/
  | reject (nodeId : NodeId) (tid : Tid)

namespace Store

/-- The task a node points at. -/
def pointer (s : Store) (nodeId : NodeId) : Option Tid := (s.node nodeId).bind (·.currentTask)

/-- The queues `claim_task_for_node` takes tasks from. -/
def serves (s : Store) (nodeId : NodeId) : QueueKey → Prop
  | .node n => n = nodeId
  | .unassigned runtime => ∃ node, s.node nodeId = some node ∧ runtime ∈ nodeUnassignedRuntimes node

/-- A member whose last report is too old. -/
def dead (s : Store) (nodeId : NodeId) : Prop :=
  nodeId ∈ s.nodes ∧ ∃ node, s.node nodeId = some node ∧ isNodeHealthy node s.clock = false

/-- A task is assigned the way its queue is for. -/
def homeIn (task : Task) : QueueKey → Prop
  | .node nodeId => task.assignedNode = some nodeId
  | .unassigned _ => task.assignedNode = none

/-- Nothing is known of a task id. -/
structure UnusedTask (s : Store) (tid : Tid) : Prop where
  task : s.task tid = none
  queue : ∀ key, tid ∉ s.queue key
  pointer : ∀ nodeId node, s.node nodeId = some node → node.currentTask ≠ some tid
  jobTasks : ∀ jobId, tid ∉ s.jobTasks jobId
  key : s.taskEncryptionKey tid = none
  taskFile : ∀ jobId filename, s.file (.task jobId tid filename) = none
  resultFile : ∀ jobId, s.file (.result jobId tid) = none

/-- Nothing is known of a node id, but that tasks may wait for it. -/
structure UnusedNode (s : Store) (nodeId : NodeId) : Prop where
  node : s.node nodeId = none
  member : nodeId ∉ s.nodes
  badReceipts : s.badReceipts nodeId = 0
  publicKey : s.nodePublicKey nodeId = none

/-- The count of a node's bad receipts goes up, and at the threshold the node goes. -/
@[simps] def strike (s : Store) (nodeId : NodeId) : Store :=
  { s with
    badReceipts := Function.update s.badReceipts nodeId (s.badReceipts nodeId + 1)
    nodes := if badReceiptThreshold ≤ s.badReceipts nodeId + 1 then
      s.nodes.filter (· ≠ nodeId) else s.nodes }

/-- The state after a submission whose receipt does not verify. -/
@[simps] def reject (s : Store) (nodeId : NodeId) (tid : Tid) (runtime : Runtime) : Store :=
  { s.strike nodeId with
    task := ((s.strike nodeId).requeue tid none runtime).task
    queue := ((s.strike nodeId).requeue tid none runtime).queue }

end Store

/-- One move; the premises are what the code has checked before its writes. -/
inductive Move : Store → Label → Store → Prop
  | tick {s} (now) : Move s (.tick now) (s.setClock now)
  | expire {s} (tid) : Move s (.expire tid) (s.dropTask tid)
  | register {s} (a : Register) (owner) : s.UnusedNode a.nodeId →
      Move s (.register a) ((s.putNode a.nodeId (a.node owner s.clock)).addMember a.nodeId)
  | publicKey {s nodeId node} (key) : s.node nodeId = some node → s.nodePublicKey nodeId = none →
      Move s (.publicKey nodeId key) (s.putPublicKey nodeId key)
  | createJob {s} (a : CreateJob) : s.job a.jobId = none →
      Move s (.createJob a) (s.putJob a.jobId {
        jobToken := a.jobToken, pid := a.pid, name := a.name, status := .queued,
        totalTasks := a.totalTasks, createdAt := s.clock, updatedAt := s.clock,
        metadataJson := a.metadataJson })
  | createTask {s} (a : CreateTask) : s.UnusedTask a.tid → Move s (.createTask a) (s.create a)
  | refresh {s} (jobId) : Move s (.refresh jobId) (s.refresh jobId)
  | heartbeat {s nodeId node} : s.node nodeId = some node → Move s (.heartbeat nodeId)
      ((s.modifyNode nodeId fun node ↦ { node with lastSeen := s.clock }).addMember nodeId)
  | lease {s tid task} : s.task tid = some task → task.status.live = true →
      Move s (.lease tid) (s.extendLease tid)
  | clearPointer {s nodeId node} : s.node nodeId = some node →
      (∀ tid task, node.currentTask = some tid → s.task tid = some task →
        task.status.live = false) →
      Move s (.clearPointer nodeId) (s.clearPointer nodeId)
  | reclaim {s nodeId node tid task} : s.dead nodeId → s.node nodeId = some node →
      node.currentTask = some tid → s.task tid = some task → task.status.live = true →
      Move s (.reclaim nodeId tid (s.healthyNodeIds (some nodeId) (some task.runtime)).head?)
        ((s.requeue tid (s.healthyNodeIds (some nodeId) (some task.runtime)).head?
          task.runtime).clearPointer nodeId)
  | rehome {s nodeId tid rest task} : s.dead nodeId → s.queue (.node nodeId) = tid :: rest →
      s.task tid = some task → (task.status = .queued ∨ task.status.live = true) →
      Move s (.rehome nodeId tid (s.healthyNodeIds (some nodeId) (some task.runtime)).head?)
        ((s.pop (.node nodeId)).requeue tid
          (s.healthyNodeIds (some nodeId) (some task.runtime)).head? task.runtime)
  | discard {s key tid rest} : s.queue key = tid :: rest →
      (∀ task, s.task tid = some task → task.status.finished = true ∨ ¬ Store.homeIn task key) →
      Move s (.discard key tid) (s.pop key)
  | bounce {s nodeId key tid rest task} : s.serves nodeId key → s.queue key = tid :: rest →
      s.task tid = some task →
      Move s (.bounce nodeId key tid) ((s.pop key).requeue tid none task.runtime)
  | take {s nodeId node key tid rest task claimToken downloadToken} : s.serves nodeId key →
      s.node nodeId = some node → node.currentTask = none → s.queue key = tid :: rest →
      s.task tid = some task → nodeSupportsRuntime node (some task.runtime) = true →
      Move s (.take nodeId key tid claimToken downloadToken)
        (s.take key nodeId tid claimToken downloadToken)
  | start {s nodeId node tid task downloadToken data} : s.node nodeId = some node →
      s.task tid = some task → task.assignedNode = some nodeId →
      task.downloadToken = some downloadToken →
      s.file task.blobPath = some data →
      Move s (.start nodeId tid) (s.modifyTask tid (·.start s.clock))
  | unwrap {s} (tid) : Move s (.unwrap tid) (s.dropTaskKey tid)
  | charge {s} (apiKey amount) : Move s (.charge apiKey amount) (s.charge apiKey amount)
  | complete {s nodeId node tid task claimToken} (resultBytes) : s.node nodeId = some node →
      s.task tid = some task →
      task.assignedNode = some nodeId → task.claimToken = some claimToken →
      Move s (.complete nodeId tid resultBytes) (s.complete tid nodeId task resultBytes)
  | fail {s nodeId node tid task claimToken} (errorMessage) : s.node nodeId = some node →
      s.task tid = some task →
      task.assignedNode = some nodeId → task.claimToken = some claimToken →
      Move s (.fail nodeId tid) (s.fail tid nodeId task errorMessage)
  | reject {s nodeId node tid task claimToken} : s.node nodeId = some node →
      s.task tid = some task →
      task.assignedNode = some nodeId → task.claimToken = some claimToken →
      Move s (.reject nodeId tid) (s.reject nodeId tid task.runtime)

inductive Moves : Store → List Label → Store → Prop
  | nil (s) : Moves s [] s
  | cons {s l s₁ ls s'} : Move s l s₁ → Moves s₁ ls s' → Moves s (l :: ls) s'

theorem Moves.single {s l s'} (h : Move s l s') : Moves s [l] s' := .cons h (.nil s')

theorem Moves.append {s ls s₁ ls' s'} (h : Moves s ls s₁) (h' : Moves s₁ ls' s') :
    Moves s (ls ++ ls') s' := by
  induction h with
  | nil => exact h'
  | cons hm _ ih => exact .cons hm (ih h')

/-- `Via P s s'`: some moves with labels in `P` lead from `s` to `s'`. -/
def Via (P : Label → Prop) (s s' : Store) : Prop := ∃ ls, Moves s ls s' ∧ ∀ l ∈ ls, P l

namespace Via

variable {P P' : Label → Prop} {s s₁ s' : Store} {l : Label}

theorem refl (P : Label → Prop) (s : Store) : Via P s s := ⟨[], .nil s, fun _ h ↦ by cases h⟩

theorem single (h : Move s l s') (hl : P l) : Via P s s' :=
  ⟨[l], .single h, fun _ h' ↦ List.mem_singleton.mp h' ▸ hl⟩

theorem trans (h₁ : Via P s s₁) (h₂ : Via P s₁ s') : Via P s s' := by
  obtain ⟨ls₁, hm₁, hl₁⟩ := h₁
  obtain ⟨ls₂, hm₂, hl₂⟩ := h₂
  exact ⟨ls₁ ++ ls₂, hm₁.append hm₂,
    fun l hl ↦ (List.mem_append.mp hl).elim (hl₁ l) (hl₂ l)⟩

theorem mono (h : Via P s s') (hP : ∀ l, P l → P' l) : Via P' s s' := by
  obtain ⟨ls, hm, hl⟩ := h
  exact ⟨ls, hm, fun l hl' ↦ hP l (hl l hl')⟩

/-- An invariant that every move with a label in `P` keeps. -/
theorem invariant {I : Store → Prop} (h : Via P s s')
    (hstep : ∀ s l s', P l → Move s l s' → I s → I s') (hs : I s) : I s' := by
  obtain ⟨ls, hm, hl⟩ := h
  induction hm with
  | nil => exact hs
  | cons hm _ ih =>
    exact ih (hstep _ _ _ (hl _ List.mem_cons_self) hm hs)
      fun l hl' ↦ hl l (List.mem_cons_of_mem _ hl')

end Via

/-! ## The two failover passes -/

/-- What the stale-task pass does: it clears pointers and takes live tasks from dead nodes. -/
def Label.stale : Label → Prop
  | .clearPointer _ | .reclaim .. => True
  | _ => False

/-- What draining dead queues does. -/
def Label.drain : Label → Prop
  | .rehome .. | .discard .. => True
  | _ => False

/-- What draining the queue of one node does. -/
def Label.drains (nodeId : NodeId) : Label → Prop
  | .rehome n _ _ => n = nodeId
  | .discard key _ => key = .node nodeId
  | _ => False

theorem Label.drains.drain {nodeId : NodeId} {l : Label} (h : l.drains nodeId) : l.drain := by
  cases l with
  | rehome | discard => trivial
  | _ => exact h.elim

/-- What a failover pass leaves alone. -/
structure SameRoster (s s' : Store) : Prop where
  clock : s'.clock = s.clock
  nodes : s'.nodes = s.nodes
  health : ∀ n node, s.node n = some node → ∃ node', s'.node n = some node' ∧
    ∀ now, isNodeHealthy node' now = isNodeHealthy node now

theorem SameRoster.refl (s : Store) : SameRoster s s :=
  ⟨rfl, rfl, fun _ node h ↦ ⟨node, h, fun _ ↦ rfl⟩⟩

theorem SameRoster.trans {s s₁ s₂ : Store} (h₁ : SameRoster s s₁) (h₂ : SameRoster s₁ s₂) :
    SameRoster s s₂ := by
  refine ⟨h₂.clock.trans h₁.clock, h₂.nodes.trans h₁.nodes, fun n node h ↦ ?_⟩
  obtain ⟨node₁, hn₁, hh₁⟩ := h₁.health n node h
  obtain ⟨node₂, hn₂, hh₂⟩ := h₂.health n node₁ hn₁
  exact ⟨node₂, hn₂, fun now ↦ (hh₂ now).trans (hh₁ now)⟩

theorem sameRoster_modifyNode {s s' : Store} (nodeId : NodeId) {f : Node → Node}
    (hf : ∀ node, (f node).lastSeen = node.lastSeen) (hc : s'.clock = s.clock)
    (hm : s'.nodes = s.nodes) (hn : s'.node = (s.modifyNode nodeId f).node) : SameRoster s s' := by
  refine ⟨hc, hm, fun n node h ↦ ?_⟩
  rw [hn, Store.modifyNode_node]
  by_cases he : n = nodeId
  · subst he
    refine ⟨f node, by rw [Function.update_self, h, Option.map_some], fun now ↦ ?_⟩
    rw [isNodeHealthy, hf, isNodeHealthy]
  · exact ⟨node, by rw [Function.update_of_ne he, h], fun _ ↦ rfl⟩

theorem Move.sameRoster {s l s'} (h : Move s l s') (hl : l.stale ∨ l.drain) : SameRoster s s' := by
  have hclear : ∀ node : Node, node.clearCurrentTask.lastSeen = node.lastSeen := fun _ ↦ rfl
  cases h with
  | @clearPointer n => exact sameRoster_modifyNode n hclear rfl rfl rfl
  | @reclaim n => exact sameRoster_modifyNode n hclear rfl rfl rfl
  | rehome | discard => exact ⟨rfl, rfl, fun n node h ↦ ⟨node, h, fun _ ↦ rfl⟩⟩
  | _ => rcases hl with hl | hl <;> exact hl.elim

theorem Via.sameRoster {s s' : Store} (h : Via (fun l ↦ l.stale ∨ l.drain) s s') :
    SameRoster s s' :=
  h.invariant (fun _ _ _ hl hm hs ↦ hs.trans (hm.sameRoster hl)) (.refl s)

theorem SameRoster.dead {s s' : Store} (h : SameRoster s s') {nodeId : NodeId}
    (hd : s.dead nodeId) : s'.dead nodeId := by
  obtain ⟨hm, node, hn, hh⟩ := hd
  obtain ⟨node', hn', hh'⟩ := h.health nodeId node hn
  exact ⟨h.nodes ▸ hm, node', hn', by rw [h.clock, hh', hh]⟩

/-- A failover pass makes no node. -/
theorem Move.node_none {s l s'} (h : Move s l s') (hl : l.stale ∨ l.drain) {n : NodeId}
    (hn : s.node n = none) : s'.node n = none := by
  have hclear : ∀ m, Function.update s.node m ((s.node m).map Node.clearCurrentTask) n = none := by
    intro m
    by_cases he : n = m
    · rw [he, Function.update_self, ← he, hn, Option.map_none]
    · rw [Function.update_of_ne he, hn]
  cases h with
  | clearPointer | reclaim => exact hclear _
  | rehome | discard => exact hn
  | _ => rcases hl with hl | hl <;> exact hl.elim

/-- A failover pass finds the same nodes dead throughout. -/
theorem Via.dead_iff {s s' : Store} (h : Via (fun l ↦ l.stale ∨ l.drain) s s') {nodeId : NodeId} :
    s'.dead nodeId ↔ s.dead nodeId := by
  refine ⟨fun hd ↦ ?_, h.sameRoster.dead⟩
  obtain ⟨hm, node', hn', hh'⟩ := hd
  have hr := h.sameRoster
  cases hn : s.node nodeId with
  | none =>
    have hnone := h.invariant (I := fun s₁ ↦ s₁.node nodeId = none)
      (fun _ _ _ hl hm hs ↦ hm.node_none hl hs) hn
    rw [hnone] at hn'
    cases hn'
  | some node =>
    obtain ⟨node₁, hn₁, hh₁⟩ := hr.health nodeId node hn
    rw [hn', Option.some.injEq] at hn₁
    rw [hn₁, hh₁, hr.clock] at hh'
    exact ⟨hr.nodes ▸ hm, node, hn, hh'⟩

theorem pointer_clearPointer (s : Store) (nodeId : NodeId) :
    (s.clearPointer nodeId).pointer nodeId = none := by
  rw [Store.pointer, Store.clearPointer_node, Function.update_self]
  cases s.node nodeId <;> rfl

/-- One turn of the stale-task pass leaves a dead node without a current task. -/
theorem wp_requeueStaleNode {s : Store} {nodeId : NodeId} (hmem : nodeId ∈ s.nodes) :
    wp (requeueStaleNode s.clock nodeId) (fun _ s' ↦ Via Label.stale s s' ∧
      (s.dead nodeId → s'.pointer nodeId = none)) s := by
  rw [requeueStaleNode, wp_bind, Server.wp_read]
  cases hn : s.node nodeId with
  | none =>
    refine (wp_pure () _ s).mpr ⟨.refl _ s, fun _ ↦ ?_⟩
    rw [Store.pointer, hn, Option.bind_none]
  | some node =>
    by_cases hh : isNodeHealthy node s.clock = true
    · simp only [hh, if_true, wp_pure]
      refine ⟨.refl _ s, fun hdead ↦ ?_⟩
      obtain ⟨-, node', hn', hh'⟩ := hdead
      rw [hn, Option.some.injEq] at hn'
      rw [← hn', hh] at hh'
      cases hh'
    · have hdead : s.dead nodeId := ⟨hmem, node, hn, by simpa using hh⟩
      simp only [hh, Bool.false_eq_true, if_false]
      cases hc : node.currentTask with
      | none =>
        refine (wp_pure () _ s).mpr ⟨.refl _ s, fun _ ↦ ?_⟩
        rw [Store.pointer, hn, Option.bind_some, hc]
      | some tid =>
        simp only [wp_bind, Server.wp_read]
        cases ht : s.task tid with
        | none =>
          refine (Server.wp_write _ _ _ s).mpr
            ⟨.single (.clearPointer hn ?_) trivial, fun _ ↦ pointer_clearPointer s nodeId⟩
          intro tid' task hc' ht'
          rw [hc, Option.some.injEq] at hc'
          rw [← hc', ht] at ht'
          cases ht'
        | some task =>
          by_cases hl : task.status.live = true
          · simp only [hl, if_true, wp_bind, wp_getHealthyNodeIds, wp_requeueTask, ht,
              Server.wp_write]
            exact ⟨.single (.reclaim hdead hn hc ht hl) trivial,
              fun _ ↦ pointer_clearPointer (s.requeue tid _ task.runtime) nodeId⟩
          · simp only [hl, Bool.false_eq_true, if_false, Server.wp_write]
            refine ⟨.single (.clearPointer hn ?_) trivial, fun _ ↦ pointer_clearPointer s nodeId⟩
            intro tid' task' hc' ht'
            rw [hc, Option.some.injEq] at hc'
            rw [← hc', ht, Option.some.injEq] at ht'
            rw [← ht']
            simpa using hl

/-- The stale-task pass ends, and takes live tasks only from members that are dead. -/
theorem wp_requeueStaleTasks (s : Store) :
    wp requeueStaleTasks (fun _ s' ↦ Via Label.stale s s') s := by
  simp only [requeueStaleTasks, wp_bind, Server.wp_read, wp_getAllNodeIds]
  refine (wp_forEach (fun nodeIds s' ↦ Via Label.stale s s' ∧ ∀ n ∈ nodeIds, n ∈ s.nodes)
    (fun nodeId nodeIds s₁ h ↦ ?_) ?_).mono fun _ s' h ↦ h.1
  · have hr := (h.1.mono fun l hl ↦ Or.inl hl).sameRoster
    have hmem : nodeId ∈ s₁.nodes := by
      rw [hr.nodes]
      exact h.2 nodeId List.mem_cons_self
    rw [← hr.clock]
    exact (wp_requeueStaleNode hmem).mono fun _ s₂ h₂ ↦
      ⟨h.1.trans h₂.1, fun n hn ↦ h.2 n (List.mem_cons_of_mem _ hn)⟩
  · refine ⟨.refl _ s, fun n hn ↦ ?_⟩
    exact (List.mem_insertionSort _).mp hn

theorem wp_drainOne {s : Store} {nodeId : NodeId} (hdead : s.dead nodeId) :
    wp (drainOne nodeId) (optionPost (fun _ s' ↦ s' = s ∧ s.queue (.node nodeId) = [])
      fun s' ↦ Via (Label.drains nodeId) s s' ∧
      (s'.queue (.node nodeId)).length < (s.queue (.node nodeId)).length) s := by
  rw [drainOne, wp_bind, Server.wp_lpop]
  cases hq : s.queue (.node nodeId) with
  | nil => simp only [List.head?_nil, wp_pure, optionPost, Store.pop_of_nil hq, and_self]
  | cons tid rest =>
    have hpop : ((s.pop (.node nodeId)).queue (.node nodeId)).length < (tid :: rest).length := by
      rw [Store.pop_queue, Function.update_self, hq, List.tail_cons, List.length_cons]
      omega
    simp only [List.head?_cons, wp_bind, Server.wp_read, Store.pop_task]
    cases ht : s.task tid with
    | none =>
      refine (wp_pure none _ _).mpr ⟨.single (.discard hq fun task h ↦ ?_) rfl, hpop⟩
      rw [ht] at h
      cases h
    | some task =>
      by_cases hw : task.status = .queued ∨ task.status.live = true
      · simp only [hw, if_true, wp_bind, wp_getHealthyNodeIds, wp_requeueTask, Store.pop_task, ht,
          wp_pure, optionPost]
        refine ⟨.single (.rehome hdead hq ht hw) rfl, ?_⟩
        have hne := Store.homeQueue_healthyNodeIds_ne s nodeId (some task.runtime) task.runtime
        rw [Store.requeue_queue]
        rw [show (s.pop (.node nodeId)).healthyNodeIds (some nodeId) (some task.runtime) =
          s.healthyNodeIds (some nodeId) (some task.runtime) from rfl,
          Function.update_of_ne hne.symm]
        exact hpop
      · simp only [hw, if_false, wp_pure, optionPost]
        refine ⟨.single (.discard hq fun task' h ↦ .inl ?_) rfl, hpop⟩
        rw [ht, Option.some.injEq] at h
        subst h
        cases hs : task.status <;> simp_all [TaskStatus.live, TaskStatus.finished]

/-- Draining leaves a dead node with an empty queue, and does nothing to any other. -/
theorem wp_drainNode {s : Store} {nodeId : NodeId} (hmem : nodeId ∈ s.nodes) :
    wp (drainNode s.clock nodeId) (fun _ s' ↦
      Via (fun l ↦ s.dead nodeId ∧ l.drains nodeId) s s' ∧
        (s.dead nodeId → s'.queue (.node nodeId) = [])) s := by
  rw [drainNode, wp_bind, Server.wp_read]
  cases hn : s.node nodeId with
  | none =>
    refine (wp_pure () _ s).mpr ⟨.refl _ s, fun hdead ↦ ?_⟩
    obtain ⟨-, node', hn', -⟩ := hdead
    rw [hn] at hn'
    cases hn'
  | some node =>
    by_cases hh : isNodeHealthy node s.clock = true
    · simp only [hh, if_true, wp_pure]
      refine ⟨.refl _ s, fun hdead ↦ ?_⟩
      obtain ⟨-, node', hn', hh'⟩ := hdead
      rw [hn, Option.some.injEq] at hn'
      rw [← hn', hh] at hh'
      cases hh'
    · have hdead : s.dead nodeId := ⟨hmem, node, hn, by simpa using hh⟩
      simp only [hh, Bool.false_eq_true, if_false]
      have hloop : wp (whileTrue (drainOne nodeId)) (fun _ s' ↦
          Via (Label.drains nodeId) s s' ∧ s'.queue (.node nodeId) = []) s := by
        refine wp_whileTrue (Via (Label.drains nodeId) s)
          (fun s' ↦ (s'.queue (.node nodeId)).length) (fun s₁ h₁ ↦ ?_) (.refl _ s)
        have hd₁ := (h₁.mono fun l hl ↦ Or.inr hl.drain).sameRoster.dead hdead
        refine (wp_drainOne hd₁).mono fun o s₂ h₂ ↦ ?_
        cases o with
        | some _ =>
          have h₂ : s₂ = s₁ ∧ s₁.queue (.node nodeId) = [] := h₂
          obtain ⟨rfl, hnil⟩ := h₂
          exact ⟨h₁, hnil⟩
        | none => exact ⟨h₁.trans h₂.1, h₂.2⟩
      exact hloop.mono fun _ s' h ↦ ⟨h.1.mono fun _ hl ↦ ⟨hdead, hl⟩, fun _ ↦ h.2⟩

/-- Draining ends, and moves only tasks that wait in queues of dead members. -/
theorem wp_drainDeadNodeQueues (s : Store) :
    wp drainDeadNodeQueues (fun _ s' ↦ Via (fun l ↦ ∃ n, s.dead n ∧ l.drains n) s s') s := by
  simp only [drainDeadNodeQueues, wp_bind, Server.wp_read, wp_getAllNodeIds]
  refine (wp_forEach (fun nodeIds s' ↦ Via (fun l ↦ ∃ n, s.dead n ∧ l.drains n) s s' ∧
    ∀ n ∈ nodeIds, n ∈ s.nodes) (fun nodeId nodeIds s₁ h ↦ ?_) ?_).mono fun _ s' h ↦ h.1
  · have hv : Via (fun l ↦ l.stale ∨ l.drain) s s₁ := by
      refine h.1.mono fun l hl ↦ ?_
      obtain ⟨_, _, hdrains⟩ := hl
      exact .inr hdrains.drain
    have hmem : nodeId ∈ s₁.nodes := by
      rw [hv.sameRoster.nodes]
      exact h.2 nodeId List.mem_cons_self
    rw [← hv.sameRoster.clock]
    exact (wp_drainNode hmem).mono fun _ s₂ h₂ ↦
      ⟨h.1.trans (h₂.1.mono fun _ hl ↦ ⟨nodeId, hv.dead_iff.mp hl.1, hl.2⟩),
        fun n hn ↦ h.2 n (List.mem_cons_of_mem _ hn)⟩
  · refine ⟨.refl _ s, fun n hn ↦ ?_⟩
    exact (List.mem_insertionSort _).mp hn

/-- A failover pass ends. It clears pointers, and takes work from dead members only. -/
theorem wp_sweepStaleWork_dead (s : Store) :
    wp sweepStaleWork (fun _ s' ↦
      Via (fun l ↦ l.stale ∨ ∃ n, s.dead n ∧ l.drains n) s s') s := by
  rw [sweepStaleWork, wp_bind]
  refine (wp_requeueStaleTasks s).mono fun _ s₁ h₁ ↦ ?_
  refine (wp_drainDeadNodeQueues s₁).mono fun _ s₂ h₂ ↦ ?_
  have hdead : ∀ n, s₁.dead n ↔ s.dead n := fun n ↦ (h₁.mono fun _ ↦ Or.inl).dead_iff
  exact (h₁.mono fun _ ↦ Or.inl).trans
    (h₂.mono fun _ ⟨n, hn, hl⟩ ↦ Or.inr ⟨n, (hdead n).mp hn, hl⟩)

theorem wp_sweepStaleWork (s : Store) :
    wp sweepStaleWork (fun _ s' ↦ Via (fun l ↦ l.stale ∨ l.drain) s s') s := by
  refine (wp_sweepStaleWork_dead s).mono fun _ s' h ↦ h.mono fun l hl ↦ ?_
  exact hl.imp_right fun ⟨_, _, hd⟩ ↦ hd.drain

/-! ## Claims -/

/-- Taking ids from the front of a queue without moving them anywhere. -/
def Label.discards (key : QueueKey) : Label → Prop
  | .discard k _ => k = key
  | _ => False

theorem Via.onlyQueues {P : Label → Prop} {s s' : Store} (hP : ∀ l, P l → ∃ key, l.discards key)
    (h : Via P s s') : s' = { s with queue := s'.queue } := by
  refine h.invariant (I := fun s' ↦ s' = { s with queue := s'.queue }) ?_ rfl
  intro s₁ l s₂ hl hm h₁
  obtain ⟨key, hk⟩ := hP l hl
  cases hm with
  | discard => rw [h₁]; rfl
  | _ => exact hk.elim

/-- The queues `claim_task_for_node` reads, and how it reads them. -/
def QueueKey.readBy (nodeId : NodeId) (allowUnassigned : Bool) : QueueKey → Prop
  | .node n => n = nodeId
  | .unassigned _ => allowUnassigned = true

/-- A queue from whose front a task can be claimed by a node. -/
structure Popped (key : QueueKey) (nodeId : NodeId) (allowUnassigned : Bool) (s₁ : Store)
    (tid : Tid) (task : Task) : Prop where
  head : ∃ rest, s₁.queue key = tid :: rest
  stored : s₁.task tid = some task
  keeps : popKeeps nodeId allowUnassigned task = true

/-- What `_pop_queue_tid` drops is not at home in the queue it reads. -/
theorem not_homeIn_of_not_keeps {key : QueueKey} {nodeId : NodeId} {allowUnassigned : Bool}
    {task : Task} (hkey : key.readBy nodeId allowUnassigned)
    (h : popKeeps nodeId allowUnassigned task = false) : ¬ Store.homeIn task key := by
  cases key with
  | node n =>
    have hkey : n = nodeId := hkey
    subst hkey
    intro hh
    have hh : task.assignedNode = some n := hh
    rw [popKeeps, hh] at h
    simp at h
  | unassigned runtime =>
    have hkey : allowUnassigned = true := hkey
    subst hkey
    intro hh
    have hh : task.assignedNode = none := hh
    rw [popKeeps, hh] at h
    cases h

/-- `_pop_queue_tid` ends; it drops a prefix of the queue and returns the next id, or empties the
queue. -/
theorem wp_popQueueTid {s : Store} {key : QueueKey} {nodeId : NodeId} {allowUnassigned : Bool}
    (hkey : key.readBy nodeId allowUnassigned) :
    wp (popQueueTid key nodeId allowUnassigned) (optionPost
      (fun tid s' ↦ ∃ s₁ task, Via (Label.discards key) s s₁ ∧
        Popped key nodeId allowUnassigned s₁ tid task ∧ s' = s₁.pop key)
      (fun s' ↦ Via (Label.discards key) s s' ∧ s'.queue key = [])) s := by
  refine wp_whileTrue (Via (Label.discards key) s) (fun s' ↦ (s'.queue key).length)
    (fun s₁ h₁ ↦ ?_) (.refl _ s)
  rw [popOne, wp_bind, Server.wp_lpop]
  cases hq : s₁.queue key with
  | nil =>
    simp only [List.head?_nil, wp_pure, optionPost, Store.pop_of_nil hq]
    exact ⟨h₁, hq⟩
  | cons tid rest =>
    have hpop : ((s₁.pop key).queue key).length < (tid :: rest).length := by
      rw [Store.pop_queue, Function.update_self, hq, List.tail_cons, List.length_cons]
      omega
    simp only [List.head?_cons, wp_bind, Server.wp_read, Store.pop_task]
    cases ht : s₁.task tid with
    | none =>
      refine (wp_pure none _ _).mpr ⟨h₁.trans (.single (.discard hq fun task h ↦ ?_) rfl), hpop⟩
      rw [ht] at h
      cases h
    | some task =>
      by_cases hk : popKeeps nodeId allowUnassigned task = true
      · simp only [hk, if_true, wp_pure, optionPost]
        exact ⟨s₁, task, h₁, ⟨⟨rest, hq⟩, ht, hk⟩, rfl⟩
      · simp only [hk, Bool.false_eq_true, if_false, wp_pure, optionPost]
        refine ⟨h₁.trans (.single (.discard hq fun task' h ↦ .inr ?_) rfl), hpop⟩
        rw [ht, Option.some.injEq] at h
        subst h
        exact not_homeIn_of_not_keeps hkey (by simpa using hk)

/-- What a claim of a node does, when it draws these tokens and answers `answer`. -/
def Label.ofClaim (nodeId : NodeId) (claimToken downloadToken : Token) (answer : Option Tid) :
    Label → Prop
  | .clearPointer _ | .reclaim .. | .discard .. => True
  | .bounce n _ _ => n = nodeId
  | .take n _ tid c d => n = nodeId ∧ c = claimToken ∧ d = downloadToken ∧ answer = some tid
  | _ => False

/-- What `claim_task_for_node` leaves: it answers with a live task its node points at. -/
structure Claimed (s : Store) (nodeId : NodeId) (claimToken downloadToken : Token)
    (answer : Option (Tid × Task)) (s' : Store) : Prop where
  via : Via (Label.ofClaim nodeId claimToken downloadToken (answer.map (·.1))) s s'
  answers : ∀ tid task, answer = some (tid, task) → s'.task tid = some task ∧
    task.status.live = true ∧ ∃ node, s'.node nodeId = some node ∧ node.currentTask = some tid

theorem Claimed.none {s s' : Store} {nodeId : NodeId} {claimToken downloadToken : Token}
    (h : Via (Label.ofClaim nodeId claimToken downloadToken none) s s') :
    Claimed s nodeId claimToken downloadToken none s' :=
  ⟨h, fun _ _ h ↦ by cases h⟩

theorem Label.discards.ofClaim {key : QueueKey} {l : Label} (h : l.discards key)
    (nodeId : NodeId) (claimToken downloadToken : Token) (answer : Option Tid) :
    l.ofClaim nodeId claimToken downloadToken answer := by
  cases l with
  | discard => trivial
  | _ => exact h.elim

/-- A claim that takes no task makes no move that a claim that takes one does not make. -/
theorem Label.ofClaim.of_none {nodeId : NodeId} {claimToken downloadToken : Token} {l : Label}
    (h : l.ofClaim nodeId claimToken downloadToken none) (answer : Option Tid) :
    l.ofClaim nodeId claimToken downloadToken answer := by
  cases l with
  | clearPointer | reclaim | discard => trivial
  | bounce => exact h
  | take => cases h.2.2.2
  | _ => exact h.elim

/-- A claim takes the task it has popped if its node runs it. -/
theorem wp_claimPopped_take {s : Store} {nodeId : NodeId} {node : Node} {key : QueueKey} {tid : Tid}
    {task : Task} (claimToken downloadToken : Token) (ht : s.task tid = some task)
    (hr : nodeSupportsRuntime node (some task.runtime) = true) :
    wp (claimPopped nodeId node tid claimToken downloadToken) (fun answer s' ↦
      answer = some (tid, task.claim nodeId claimToken downloadToken s.clock) ∧
        s' = s.take key nodeId tid claimToken downloadToken) (s.pop key) := by
  have ht' : (s.take key nodeId tid claimToken downloadToken).task tid =
      some (task.claim nodeId claimToken downloadToken s.clock) := by
    rw [Store.take_task, Function.update_self, ht, Option.map_some]
  have hs' : ((s.pop key).modifyTask tid (·.claim nodeId claimToken downloadToken
      (s.pop key).clock)).modifyNode nodeId (·.takeTask tid (s.pop key).clock) =
      s.take key nodeId tid claimToken downloadToken := rfl
  rw [claimPopped, wp_bind, Server.wp_read]
  simp only [Store.pop_task, ht, hr, if_true, wp_bind, Server.wp_read, Server.wp_write]
  rw [hs']
  simp only [ht']
  exact (wp_pure _ _ _).mpr ⟨rfl, rfl⟩

/-- `claim_task_for_node` from the moment a task id is at the front of a queue it reads. -/
theorem wp_claimPopped {s : Store} {nodeId : NodeId} {node : Node} {key : QueueKey} {tid : Tid}
    {task : Task} {allowUnassigned : Bool} (claimToken downloadToken : Token)
    (hserves : s.serves nodeId key) (hnode : s.node nodeId = some node.clearCurrentTask)
    (hpop : Popped key nodeId allowUnassigned s tid task) :
    wp (claimPopped nodeId node tid claimToken downloadToken)
      (Claimed s nodeId claimToken downloadToken) (s.pop key) := by
  obtain ⟨⟨rest, hq⟩, ht, -⟩ := hpop
  by_cases hr : nodeSupportsRuntime node (some task.runtime) = true
  · refine (wp_claimPopped_take claimToken downloadToken ht hr).mono fun answer s' h ↦ ?_
    obtain ⟨rfl, rfl⟩ := h
    have hmove : Move s (.take nodeId key tid claimToken downloadToken)
        (s.take key nodeId tid claimToken downloadToken) :=
      .take hserves hnode rfl hq ht hr
    refine ⟨.single hmove ⟨rfl, rfl, rfl, rfl⟩, ?_⟩
    rintro t task' h
    simp only [Option.some.injEq, Prod.mk.injEq] at h
    obtain ⟨rfl, rfl⟩ := h
    refine ⟨?_, rfl, node.clearCurrentTask.takeTask tid s.clock, ?_, rfl⟩
    · rw [Store.take_task, Function.update_self, ht, Option.map_some]
    · rw [Store.take_node, Function.update_self, hnode, Option.map_some]
  · rw [claimPopped, wp_bind, Server.wp_read]
    simp only [Store.pop_task, ht, hr, Bool.false_eq_true, if_false, wp_bind, wp_requeueTask,
      wp_pure]
    exact .none (.single (.bounce hserves hq ht) rfl)

theorem serves_unassigned {s : Store} {nodeId : NodeId} {node : Node} {runtime : Runtime}
    (hnode : s.node nodeId = some node.clearCurrentTask)
    (hr : runtime ∈ nodeUnassignedRuntimes node) :
    s.serves nodeId (unassignedQueueKey (some runtime)) :=
  ⟨node.clearCurrentTask, hnode, hr⟩

theorem wp_claimFromQueues {s : Store} {nodeId : NodeId} {node : Node}
    (claimToken downloadToken : Token) (hnode : s.node nodeId = some node.clearCurrentTask) :
    wp (claimFromQueues nodeId node claimToken downloadToken)
      (Claimed s nodeId claimToken downloadToken) s := by
  -- what either pop leaves: some ids dropped, and the one returned still at the front
  let Found : Tid → Store → Prop := fun tid s' ↦ ∃ s₁ key task allow,
    Via (fun l ↦ ∃ key, l.discards key) s s₁ ∧ s.serves nodeId key ∧
      Popped key nodeId allow s₁ tid task ∧ s' = s₁.pop key
  let Dropped : Store → Prop := fun s' ↦ Via (fun l ↦ ∃ key, l.discards key) s s'
  have hpop : ∀ (key : QueueKey) allow s₁, s.serves nodeId key → key.readBy nodeId allow →
      Dropped s₁ →
      wp (popQueueTid key nodeId allow) (optionPost Found Dropped) s₁ := by
    intro key allow s₁ hserves hkey h₁
    refine (wp_popQueueTid hkey).mono fun o s' h ↦ ?_
    cases o with
    | some tid =>
      obtain ⟨s₂, task, hv, hp, rfl⟩ := h
      exact ⟨s₂, key, task, allow, h₁.trans (hv.mono fun _ hl ↦ ⟨key, hl⟩), hserves, hp, rfl⟩
    | none => exact h₁.trans (h.1.mono fun _ hl ↦ ⟨key, hl⟩)
  have hdropped : ∀ s', Dropped s' → Claimed s nodeId claimToken downloadToken none s' := by
    intro s' h
    refine .none (Via.mono h fun l hl ↦ ?_)
    obtain ⟨key, hl⟩ := hl
    exact hl.ofClaim nodeId claimToken downloadToken none
  have hfound : ∀ tid s', Found tid s' →
      wp (claimPopped nodeId node tid claimToken downloadToken)
        (Claimed s nodeId claimToken downloadToken) s' := by
    rintro tid s' ⟨s₁, key, task, allow, hv, hserves, hp, rfl⟩
    have hs₁ := hv.onlyQueues fun _ hl ↦ hl
    have hnode₁ : s₁.node nodeId = some node.clearCurrentTask := by rw [hs₁]; exact hnode
    have hserves₁ : s₁.serves nodeId key := by rw [hs₁]; exact hserves
    refine (wp_claimPopped claimToken downloadToken hserves₁ hnode₁ hp).mono fun o s₂ h₂ ↦ ?_
    refine ⟨(hv.mono fun l hl ↦ ?_).trans h₂.via, h₂.answers⟩
    obtain ⟨key, hl⟩ := hl
    exact hl.ofClaim nodeId claimToken downloadToken _
  rw [claimFromQueues, wp_bind]
  refine (hpop (.node nodeId) false s rfl rfl (.refl _ s)).mono fun own s₁ h₁ ↦ ?_
  cases own with
  | some tid =>
    simp only [wp_bind, wp_pure]
    exact hfound tid s₁ h₁
  | none =>
    simp only [wp_bind]
    refine (wp_firstSome (Q := Found) Dropped (fun runtime hr s₂ h₂ ↦ ?_) h₁).mono
      fun o s' h ↦ ?_
    · exact hpop (unassignedQueueKey (some runtime)) true s₂ (serves_unassigned hnode hr) rfl h₂
    · cases o with
      | none => exact (wp_pure none _ s').mpr (hdropped s' h)
      | some tid => exact hfound tid s' h

/-- `claim_task_for_node`. -/
theorem wp_claimTaskForNode (s : Store) (nodeId : NodeId) (claimToken downloadToken : Token) :
    wp (claimTaskForNode nodeId claimToken downloadToken)
      (Claimed s nodeId claimToken downloadToken) s := by
  rw [claimTaskForNode, wp_bind]
  refine (wp_requeueStaleTasks s).mono fun _ s₁ h₁ ↦ ?_
  have hv : ∀ answer, Via (Label.ofClaim nodeId claimToken downloadToken answer) s s₁ :=
    fun answer ↦
    h₁.mono fun l hl ↦ by cases l with
      | clearPointer | reclaim => trivial
      | _ => exact hl.elim
  rw [wp_bind, Server.wp_read]
  cases hn : s₁.node nodeId with
  | none => exact (wp_pure none _ s₁).mpr (.none (hv none))
  | some node =>
    -- the pointer of the node is cleared, and the queues are read
    have hclear : (∀ tid task, node.currentTask = some tid → s₁.task tid = some task →
        task.status.live = false) →
        wp (claimFromQueues nodeId node claimToken downloadToken)
          (Claimed s nodeId claimToken downloadToken)
          (s₁.modifyNode nodeId Node.clearCurrentTask) := by
      intro hdone
      have hn' : (s₁.clearPointer nodeId).node nodeId = some node.clearCurrentTask := by
        rw [Store.clearPointer_node, Function.update_self, hn, Option.map_some]
      refine (wp_claimFromQueues claimToken downloadToken hn').mono fun o s₂ h₂ ↦
        ⟨?_, h₂.answers⟩
      exact (hv _).trans ((Via.single (.clearPointer hn hdone) trivial).trans h₂.via)
    cases hc : node.currentTask with
    | none =>
      have hn' : s₁.node nodeId = some node.clearCurrentTask := by
        rw [hn]
        cases node
        cases hc
        rfl
      simp only [hc]
      exact (wp_claimFromQueues claimToken downloadToken hn').mono fun o s₂ h₂ ↦
        ⟨(hv _).trans h₂.via, h₂.answers⟩
    | some tid =>
      simp only [hc, wp_bind, Server.wp_read]
      cases ht : s₁.task tid with
      | none =>
        simp only [wp_bind, Server.wp_write]
        refine hclear fun tid' task hc' ht' ↦ ?_
        rw [hc, Option.some.injEq] at hc'
        rw [← hc', ht] at ht'
        cases ht'
      | some task =>
        by_cases hl : task.status.live = true
        · simp only [hl, if_true, wp_pure]
          refine ⟨hv _, fun t task' h ↦ ?_⟩
          simp only [Option.some.injEq, Prod.mk.injEq] at h
          obtain ⟨rfl, rfl⟩ := h
          exact ⟨ht, hl, node, hn, hc⟩
        · simp only [hl, Bool.false_eq_true, if_false, wp_bind, Server.wp_write]
          refine hclear fun tid' task' hc' ht' ↦ ?_
          rw [hc, Option.some.injEq] at hc'
          rw [← hc', ht, Option.some.injEq] at ht'
          rw [← ht']
          simpa using hl

end TandemAio
