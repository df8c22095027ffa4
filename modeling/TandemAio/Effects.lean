import TandemAio.Run

/-!
# What the queue functions do to the state

The effect of each function of the task queue on the store, as a function of the store, and the
weakest precondition of the function in its terms.  Callers use these equations and never the
function's body.
-/

open Reasoning Reasoning.Prog

namespace TandemAio

namespace Store

def allNodeIds (s : Store) : List NodeId := s.nodes.insertionSort (· ≤ ·)

/-- Whether `get_healthy_node_ids` lists a member. -/
def listsNode (s : Store) (exclude : Option NodeId) (requiredRuntime : Option Runtime)
    (nodeId : NodeId) : Bool :=
  decide (exclude ≠ some nodeId) && match s.node nodeId with
    | none => false
    | some node => isNodeHealthy node s.clock && nodeSupportsRuntime node requiredRuntime

def healthyNodeIds (s : Store) (exclude : Option NodeId) (requiredRuntime : Option Runtime) :
    List NodeId :=
  s.allNodeIds.filter (s.listsNode exclude requiredRuntime)

@[simps] def requeue (s : Store) (tid : Tid) (assignedNode : Option NodeId) (runtime : Runtime) :
    Store :=
  { s with
    task := Function.update s.task tid ((s.task tid).map (·.requeue assignedNode s.clock))
    queue := Function.update s.queue (homeQueue assignedNode runtime)
      (s.queue (homeQueue assignedNode runtime) ++ [tid]) }

@[simps] def clearPointer (s : Store) (nodeId : NodeId) : Store :=
  { s with node := Function.update s.node nodeId ((s.node nodeId).map Node.clearCurrentTask) }

@[simps] def take (s : Store) (key : QueueKey) (nodeId : NodeId) (tid : Tid)
    (claimToken downloadToken : Token) : Store :=
  { s with
    queue := Function.update s.queue key (s.queue key).tail
    task := Function.update s.task tid
      ((s.task tid).map (·.claim nodeId claimToken downloadToken s.clock))
    node := Function.update s.node nodeId ((s.node nodeId).map (·.takeTask tid s.clock)) }

@[simps] def extendLease (s : Store) (tid : Tid) : Store :=
  { s with task := Function.update s.task tid ((s.task tid).map (·.extendLease s.clock)) }

@[simps] def create (s : Store) (a : CreateTask) : Store :=
  { s with
    file := Function.update s.file a.blobPath (some (.aesGcm a.dek a.iv a.payload))
    taskEncryptionKey := (s.putRow a.tid (a.keyRow s.nodePublicKey)).taskEncryptionKey
    task := Function.update s.task a.tid (some (a.task s.clock))
    jobTasks := Function.update s.jobTasks a.jobId (s.jobTasks a.jobId ++ [a.tid])
    queue := Function.update s.queue (homeQueue a.assignedNode a.runtime)
      (s.queue (homeQueue a.assignedNode a.runtime) ++ [a.tid]) }

/-- The tasks of a job that exist, in the order of its list. -/
def jobTaskHashes (s : Store) (jobId : JobId) : List (Tid × Task) :=
  (s.jobTasks jobId).filterMap fun tid ↦ (s.task tid).map fun task ↦ (tid, task)

def jobSummary (s : Store) (jobId : JobId) : JobSummary :=
  summarize jobId (s.jobTasks jobId) (s.jobTaskHashes jobId)

@[simps] def refresh (s : Store) (jobId : JobId) : Store :=
  { s with
    job := Function.update s.job jobId ((s.job jobId).map fun job ↦
      { job with status := (s.jobSummary jobId).status, updatedAt := s.clock }) }

/-- `complete_task` before its refresh of the job. -/
@[simps] def complete (s : Store) (tid : Tid) (nodeId : NodeId) (task : Task)
    (resultBytes : List UInt8) : Store :=
  { s with
    file := Function.update (Function.update s.file (.result task.jobId tid)
      (some (.bytes resultBytes))) task.blobPath none
    task := Function.update s.task tid
      ((s.task tid).map (·.complete (.result task.jobId tid) s.clock))
    node := Function.update s.node nodeId ((s.node nodeId).map (·.endTask s.clock)) }

/-- `fail_task` before its refresh of the job. -/
@[simps] def fail (s : Store) (tid : Tid) (nodeId : NodeId) (task : Task) (errorMessage : String) :
    Store :=
  { s with
    file := Function.update s.file task.blobPath none
    task := Function.update s.task tid ((s.task tid).map (·.fail errorMessage s.clock))
    node := Function.update s.node nodeId ((s.node nodeId).map (·.endTask s.clock)) }

theorem pop_of_nil {s : Store} {key : QueueKey} (h : s.queue key = []) : s.pop key = s := by
  unfold pop
  rw [h, List.tail_nil, ← h, Function.update_eq_self]

theorem mem_healthyNodeIds {s : Store} {exclude runtime nodeId} :
    nodeId ∈ s.healthyNodeIds exclude runtime ↔ nodeId ∈ s.nodes ∧ exclude ≠ some nodeId ∧
      ∃ node, s.node nodeId = some node ∧ isNodeHealthy node s.clock = true ∧
        nodeSupportsRuntime node runtime = true := by
  rw [healthyNodeIds, List.mem_filter, allNodeIds, List.mem_insertionSort, listsNode]
  cases s.node nodeId with
  | none => simp only [Bool.and_false, Bool.false_eq_true, and_false, reduceCtorEq, false_and,
      exists_false]
  | some node => simp only [Bool.and_eq_true, decide_eq_true_eq, Option.some.injEq,
      exists_eq_left']

/-- A queue's new home is a member other than the excluded one. -/
theorem head?_healthyNodeIds {s : Store} {exclude runtime nodeId}
    (h : (s.healthyNodeIds exclude runtime).head? = some nodeId) :
    nodeId ∈ s.nodes ∧ exclude ≠ some nodeId := by
  have hm := mem_healthyNodeIds.mp (List.mem_of_mem_head? h)
  exact ⟨hm.1, hm.2.1⟩

theorem homeQueue_healthyNodeIds_ne (s : Store) (nodeId : NodeId) (runtime : Option Runtime)
    (r : Runtime) :
    homeQueue (s.healthyNodeIds (some nodeId) runtime).head? r ≠ .node nodeId := by
  cases hd : (s.healthyNodeIds (some nodeId) runtime).head? with
  | none => simp only [homeQueue, unassignedQueueKey, ne_eq, reduceCtorEq, not_false_eq_true]
  | some n =>
    have hne := (head?_healthyNodeIds hd).2
    simp only [homeQueue, ne_eq, QueueKey.node.injEq]
    rintro rfl
    exact hne rfl

end Store

open Server

variable {s : Store}

@[simp] theorem wp_getAllNodeIds (Q : List NodeId → Store → Prop) :
    wp getAllNodeIds Q s ↔ Q s.allNodeIds s := by
  simp only [getAllNodeIds, wp_bind, wp_read, wp_pure, Store.allNodeIds]

@[simp] theorem wp_getHealthyNodeIds (exclude : Option NodeId) (requiredRuntime : Option Runtime)
    (Q : List NodeId → Store → Prop) :
    wp (getHealthyNodeIds exclude requiredRuntime) Q s ↔
      Q (s.healthyNodeIds exclude requiredRuntime) s := by
  rw [getHealthyNodeIds, wp_bind, wp_read, wp_bind, wp_getAllNodeIds]
  refine wp_iff_of_eq (((wp_collect (g := fun nodeId ↦
    if s.listsNode exclude requiredRuntime nodeId then some nodeId else none) (fun nodeId ↦ ?_)
    s.allNodeIds)).mono ?_) Q
  · unfold Store.listsNode
    by_cases he : exclude = some nodeId
    · rw [if_pos he, wp_pure]
      simp only [he, ne_eq, not_true_eq_false, decide_false, Bool.false_and, Bool.false_eq_true,
        if_false, and_self]
    · rw [if_neg he]
      cases hn : s.node nodeId with
      | none => simp only [wp_bind, wp_read, hn, wp_pure, Bool.and_false, Bool.false_eq_true,
          if_false, and_self]
      | some node =>
        simp only [wp_bind, wp_read, hn, ne_eq, he, not_false_eq_true, decide_true, Bool.true_and]
        by_cases hk :
            (isNodeHealthy node s.clock && nodeSupportsRuntime node requiredRuntime) = true
        · simp only [hk, if_true, wp_pure, and_self]
        · simp only [hk, Bool.false_eq_true, if_false, wp_pure, and_self]
  · rintro out s' ⟨rfl, rfl⟩
    refine ⟨?_, rfl⟩
    rw [Store.healthyNodeIds, ← List.filterMap_eq_filter]
    rfl

@[simp] theorem wp_requeueTask (tid : Tid) (assignedNode : Option NodeId)
    (Q : Unit → Store → Prop) :
    wp (requeueTask tid assignedNode) Q s ↔ match s.task tid with
      | none => Q () s
      | some task => Q () (s.requeue tid assignedNode task.runtime) := by
  rw [requeueTask, wp_bind, wp_read]
  cases s.task tid with
  | none => exact wp_pure () Q s
  | some task =>
    simp only [wp_bind, wp_read, wp_write]
    rfl

@[simp] theorem wp_extendTaskLease (nodeId : NodeId) (Q : Unit → Store → Prop) :
    wp (extendTaskLease nodeId) Q s ↔
      match (s.node nodeId).bind (·.currentTask) with
      | none => Q () s
      | some tid =>
        if ((s.task tid).map (·.status.live)).getD false then Q () (s.extendLease tid)
        else Q () s := by
  rw [extendTaskLease, wp_bind, wp_read]
  cases s.node nodeId with
  | none => exact wp_pure () Q s
  | some node =>
    cases hc : node.currentTask with
    | none => simp only [hc, wp_pure, Option.bind_some]
    | some tid =>
      simp only [hc, wp_bind, wp_read, Option.bind_some]
      cases s.task tid with
      | none => simp only [wp_pure, Option.map_none, Option.getD_none, Bool.false_eq_true, if_false]
      | some task =>
        simp only [Option.map_some, Option.getD_some]
        by_cases hl : task.status.live = true
        · simp only [hl, if_true, wp_bind, wp_read, wp_write]
          rfl
        · simp only [hl, Bool.false_eq_true, if_false, wp_pure]

@[simp] theorem wp_createTask (a : CreateTask) (Q : Tid → Store → Prop) :
    wp (createTask a) Q s ↔ Q a.tid (s.create a) := by
  have hfile : (s.putFile a.blobPath a.payload).putFile a.blobPath (.aesGcm a.dek a.iv a.payload) =
      s.putFile a.blobPath (.aesGcm a.dek a.iv a.payload) := by
    simp only [Store.putFile, Function.update_idem]
  simp only [createTask, wp_bind, wp_read, wp_write, wp_pure, hfile]
  rfl

@[simp] theorem wp_refreshJobStatus (jobId : JobId) (Q : JobSummary → Store → Prop) :
    wp (refreshJobStatus jobId) Q s ↔ Q (s.jobSummary jobId) (s.refresh jobId) := by
  have hread : ∀ tid, wp (do
      let task ← Server.getTask tid
      return task.map fun task ↦ (tid, task) : Server (Option (Tid × Task)))
      (fun o s' ↦ o = (s.task tid).map (fun task ↦ (tid, task)) ∧ s' = s) s := by
    intro tid
    simp only [wp_bind, wp_read, wp_pure, and_self]
  rw [refreshJobStatus, wp_bind, wp_read, wp_bind,
    wp_iff_of_eq (wp_collect hread (s.jobTasks jobId))]
  simp only [wp_bind, wp_read, wp_write, wp_pure]
  rfl

@[simp] theorem wp_completeTask (tid : Tid) (nodeId : NodeId) (resultBytes : List UInt8)
    (Q : Option JobSummary → Store → Prop) :
    wp (completeTask tid nodeId resultBytes) Q s ↔ match s.task tid with
      | none => Q none s
      | some task => Q (some ((s.complete tid nodeId task resultBytes).jobSummary task.jobId))
          ((s.complete tid nodeId task resultBytes).refresh task.jobId) := by
  rw [completeTask, wp_bind, wp_read]
  cases s.task tid with
  | none => exact wp_pure none Q s
  | some task =>
    simp only [wp_bind, wp_read, wp_write, wp_pure, wp_refreshJobStatus]
    rfl

@[simp] theorem wp_failTask (tid : Tid) (nodeId : NodeId) (errorMessage : String)
    (Q : Option JobSummary → Store → Prop) :
    wp (failTask tid nodeId errorMessage) Q s ↔ match s.task tid with
      | none => Q none s
      | some task => Q (some ((s.fail tid nodeId task errorMessage).jobSummary task.jobId))
          ((s.fail tid nodeId task errorMessage).refresh task.jobId) := by
  rw [failTask, wp_bind, wp_read]
  cases s.task tid with
  | none => exact wp_pure none Q s
  | some task =>
    simp only [wp_bind, wp_read, wp_write, wp_pure, wp_refreshJobStatus]
    rfl

end TandemAio
