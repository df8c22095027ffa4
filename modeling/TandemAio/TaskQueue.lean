import Mathlib.Data.List.Sort
import TandemAio.Filenames
import TandemAio.Store

/-!
# `app/utils/task_queue.py`

The task queue as the server runs it, one definition a function.  Random draws (ids, tokens, keys)
are arguments; what they are assumed to be is said where requests are put together into runs.
-/

open Reasoning Reasoning.Prog

namespace TandemAio

namespace Store

/-- A key row is stored if there is one. -/
@[simps] def putRow (s : Store) (tid : Tid) (row : Option TaskEncryptionKey) : Store :=
  { s with
    taskEncryptionKey := match row with
      | some row => Function.update s.taskEncryptionKey tid (some row)
      | none => s.taskEncryptionKey }

end Store

/-- `compare_token`: nothing matches a missing token. -/
def compareToken : Option Token → Option Token → Bool
  | some expected, some provided => expected == provided
  | _, _ => false

/-- `pathlib.Path(filename).stem`: the last component without its suffix. -/
def stem (filename : String) : String :=
  let name := (filename.toList.reverse.takeWhile (· ≠ '/')).reverse
  let suffix := name.reverse.takeWhile (· ≠ '.')
  let before := name.length - (suffix.length + 1)
  -- a leading or a trailing dot starts no suffix
  if 0 < before ∧ 0 < suffix.length then String.ofList (name.take before) else String.ofList name

/-- `_flag_enabled`. -/
def flagEnabled (value : String) : Bool :=
  String.ofList ((strStrip value).toList.map Char.toLower) ∈ ["1", "true", "yes", "on"]

/-- `_unassigned_queue_key`, with `cloudpickle` for a missing runtime. -/
def unassignedQueueKey (runtime : Option Runtime) : QueueKey :=
  .unassigned (runtime.getD .cloudpickle)

/-- `_node_supports_runtime`. -/
def nodeSupportsRuntime (node : Node) (runtime : Option Runtime) : Bool :=
  match runtime.getD .cloudpickle with
  | .wasm => (node.supportsWasm.map flagEnabled).getD false
  | .cloudpickle =>
    match node.supportsCloudpickle with
    | none => true
    | some flag => flagEnabled flag

/-- `_node_unassigned_runtimes`. -/
def nodeUnassignedRuntimes (node : Node) : List Runtime :=
  if nodeSupportsRuntime node (some .wasm) then [.wasm, .cloudpickle] else [.cloudpickle]

/-- `is_node_healthy`. -/
def isNodeHealthy (node : Node) (now : Time) : Bool :=
  decide (0 < node.lastSeen) && decide (now - node.lastSeen ≤ nodeStaleSeconds)

/-- `get_all_node_ids`. -/
def getAllNodeIds : Server (List NodeId) := do
  let members ← Server.smembersNodes
  return members.insertionSort (· ≤ ·)

/-- `get_healthy_node_ids`. -/
def getHealthyNodeIds (exclude : Option NodeId) (requiredRuntime : Option Runtime) :
    Server (List NodeId) := do
  let current ← Server.time
  let nodeIds ← getAllNodeIds
  collect nodeIds fun nodeId ↦
    if exclude = some nodeId then return none
    else do
      let node ← Server.getNode nodeId
      match node with
      | none => return none
      | some node =>
        if isNodeHealthy node current && nodeSupportsRuntime node requiredRuntime then
          return some nodeId
        else return none

/-- The arguments of `create_task`, and the values it draws: the task id, and the key and nonce
of the payload. -/
structure CreateTask where
  tid : Tid
  dek : Nat
  iv : Nat
  jobId : JobId
  pid : Pid
  name : String
  filename : String
  payload : Blob
  assignedNode : Option NodeId
  runtime : Runtime
  taskName : String
  timeoutMs : Option Nat
  shardIndex : Option Nat
  shardTotal : Option Nat

namespace CreateTask

def blobPath (a : CreateTask) : Path := .task a.jobId a.tid a.filename

/-- The hash `create_task` writes. -/
def task (a : CreateTask) (timestamp : Time) : Task where
  jobId := a.jobId
  pid := a.pid
  name := a.name
  taskName := if a.taskName = "" then stem a.filename else a.taskName
  filename := a.filename
  runtime := a.runtime
  timeoutMs := a.timeoutMs
  shardIndex := a.shardIndex
  shardTotal := a.shardTotal
  status := .queued
  assignedNode := a.assignedNode
  blobPath := a.blobPath
  resultPath := none
  error := ""
  claimToken := none
  downloadToken := none
  createdAt := timestamp
  updatedAt := timestamp
  claimedAt := none
  completedAt := none
  leaseExpiresAt := none

/-- The key row for the planned node, if that node has registered a key that can wrap one. -/
def keyRow (a : CreateTask) (publicKey : NodeId → Option PublicKey) : Option TaskEncryptionKey := do
  let nodeId ← a.assignedNode
  let key ← publicKey nodeId
  let encryptedDek ← key.encrypt a.dek
  return { jobId := a.jobId, encryptedDek := encryptedDek, iv := a.iv, targetNodeId := nodeId }

end CreateTask

/-- The queue a task waits in. -/
def homeQueue (assignedNode : Option NodeId) (runtime : Runtime) : QueueKey :=
  match assignedNode with
  | some nodeId => .node nodeId
  | none => unassignedQueueKey (some runtime)

/-- `create_task`. -/
def createTask (a : CreateTask) : Server Tid := do
  let timestamp ← Server.time
  Server.write (·.putFile a.blobPath a.payload) []
  -- the ciphertext takes the place of the plaintext on disk
  Server.write (·.putFile a.blobPath (.aesGcm a.dek a.iv a.payload)) []
  let row ← Server.read (fun s ↦ a.keyRow s.nodePublicKey) fun _ ↦ []
  Server.write (·.putRow a.tid row) []
  Server.putTask a.tid (a.task timestamp)
  Server.rpushJobTask a.jobId a.tid
  Server.rpush (homeQueue a.assignedNode a.runtime) a.tid
  return a.tid

/-- The fields `requeue_task` sets. -/
def Task.requeue (task : Task) (assignedNode : Option NodeId) (timestamp : Time) : Task :=
  { task with
    status := .queued
    assignedNode := assignedNode
    claimToken := none
    downloadToken := none
    leaseExpiresAt := none
    updatedAt := timestamp }

/-- `requeue_task`. -/
def requeueTask (tid : Tid) (assignedNode : Option NodeId) : Server Unit := do
  match ← Server.getTask tid with
  | none => return ()
  | some task =>
    let timestamp ← Server.time
    Server.hsetTask tid (·.requeue assignedNode timestamp)
    Server.rpush (homeQueue assignedNode task.runtime) tid

def Node.clearCurrentTask (node : Node) : Node := { node with currentTask := none }

/-- One turn of the loop of `requeue_stale_tasks`. -/
def requeueStaleNode (current : Time) (nodeId : NodeId) : Server Unit := do
  match ← Server.getNode nodeId with
  | none => return ()
  | some node =>
    if isNodeHealthy node current then return ()
    else
      match node.currentTask with
      | none => return ()
      | some currentTid =>
        match ← Server.getTask currentTid with
        | none => Server.hsetNode nodeId Node.clearCurrentTask
        | some task =>
          if task.status.live then
            let healthyDestinations ← getHealthyNodeIds (some nodeId) (some task.runtime)
            requeueTask currentTid healthyDestinations.head?
            Server.hsetNode nodeId Node.clearCurrentTask
          else Server.hsetNode nodeId Node.clearCurrentTask

/-- `requeue_stale_tasks`. -/
def requeueStaleTasks : Server Unit := do
  let current ← Server.time
  let nodeIds ← getAllNodeIds
  forEach nodeIds (requeueStaleNode current)

/-- One turn of the inner loop of `drain_dead_node_queues`; `some` ends it. -/
def drainOne (nodeId : NodeId) : Server (Option Unit) := do
  match ← Server.lpop (.node nodeId) with
  | none => return some ()
  | some tid =>
    match ← Server.getTask tid with
    | none => return none
    | some task =>
      -- only work that is still waiting is moved
      if task.status = .queued ∨ task.status.live then
        let destinations ← getHealthyNodeIds (some nodeId) (some task.runtime)
        requeueTask tid destinations.head?
        return none
      else return none

/-- One turn of the outer loop of `drain_dead_node_queues`. -/
def drainNode (current : Time) (nodeId : NodeId) : Server Unit := do
  match ← Server.getNode nodeId with
  | none => return ()
  | some node =>
    if isNodeHealthy node current then return ()
    else whileTrue (drainOne nodeId)

/-- `drain_dead_node_queues`. -/
def drainDeadNodeQueues : Server Unit := do
  let current ← Server.time
  let nodeIds ← getAllNodeIds
  forEach nodeIds (drainNode current)

/-- `sweep_stale_work`. -/
def sweepStaleWork : Server Unit := do
  requeueStaleTasks
  drainDeadNodeQueues

/-- `get_available_nodes`. -/
def getAvailableNodes (requiredRuntime : Option Runtime) : Server (List NodeId) := do
  requeueStaleTasks
  getHealthyNodeIds none requiredRuntime

/-- Whether `_pop_queue_tid` returns a popped task, or drops it and goes on. -/
def popKeeps (nodeId : NodeId) (allowUnassigned : Bool) (task : Task) : Bool :=
  match task.assignedNode with
  | some assigned => assigned == nodeId
  | none => allowUnassigned

/-- One turn of the loop of `_pop_queue_tid`; `some` ends it. -/
def popOne (key : QueueKey) (nodeId : NodeId) (allowUnassigned : Bool) :
    Server (Option (Option Tid)) := do
  match ← Server.lpop key with
  | none => return some none
  | some tid =>
    match ← Server.getTask tid with
    | none => return none
    | some task =>
      if popKeeps nodeId allowUnassigned task then return some (some tid) else return none

/-- `_pop_queue_tid`. -/
def popQueueTid (key : QueueKey) (nodeId : NodeId) (allowUnassigned : Bool) :
    Server (Option Tid) :=
  whileTrue (popOne key nodeId allowUnassigned)

/-- The fields `claim_task_for_node` sets on the task. -/
def Task.claim (task : Task) (nodeId : NodeId) (claimToken downloadToken : Token)
    (current : Time) : Task :=
  { task with
    status := .claimed
    assignedNode := some nodeId
    claimToken := some claimToken
    downloadToken := some downloadToken
    claimedAt := some current
    leaseExpiresAt := some (current + taskLeaseSeconds)
    updatedAt := current }

def Node.takeTask (node : Node) (tid : Tid) (timestamp : Time) : Node :=
  { node with currentTask := some tid, lastSeen := timestamp }

/-- The end of `claim_task_for_node`, once a task id has been taken from a queue. -/
def claimPopped (nodeId : NodeId) (node : Node) (tid : Tid) (claimToken downloadToken : Token) :
    Server (Option (Tid × Task)) := do
  match ← Server.getTask tid with
  | none => return none
  | some task =>
    if nodeSupportsRuntime node (some task.runtime) then
      let current ← Server.time
      Server.hsetTask tid (·.claim nodeId claimToken downloadToken current)
      Server.hsetNode nodeId (·.takeTask tid current)
      match ← Server.getTask tid with
      | none => return none
      | some task => return some (tid, { task with
          claimToken := some claimToken, downloadToken := some downloadToken })
    else
      requeueTask tid none
      return none

/-- The part of `claim_task_for_node` that takes a task from the queues. -/
def claimFromQueues (nodeId : NodeId) (node : Node) (claimToken downloadToken : Token) :
    Server (Option (Tid × Task)) := do
  let own ← popQueueTid (.node nodeId) nodeId false
  let tid ← match own with
    | some tid => pure (some tid)
    | none => firstSome (nodeUnassignedRuntimes node) fun runtime ↦
        popQueueTid (unassignedQueueKey (some runtime)) nodeId true
  match tid with
  | none => return none
  | some tid => claimPopped nodeId node tid claimToken downloadToken

/-- `claim_task_for_node`, up to its second half once the node is known to hold no live task. -/
def claimTaskForNode (nodeId : NodeId) (claimToken downloadToken : Token) :
    Server (Option (Tid × Task)) := do
  requeueStaleTasks
  match ← Server.getNode nodeId with
  | none => return none
  | some node =>
    match node.currentTask with
    | none => claimFromQueues nodeId node claimToken downloadToken
    | some currentTid =>
      match ← Server.getTask currentTid with
      | some existing =>
        if existing.status.live then return some (currentTid, existing)
        else
          Server.hsetNode nodeId Node.clearCurrentTask
          claimFromQueues nodeId node claimToken downloadToken
      | none =>
        Server.hsetNode nodeId Node.clearCurrentTask
        claimFromQueues nodeId node claimToken downloadToken

/-- The fields `extend_task_lease` sets on the task. -/
def Task.extendLease (task : Task) (current : Time) : Task :=
  { task with leaseExpiresAt := some (current + taskLeaseSeconds), updatedAt := current }

/-- `extend_task_lease`. -/
def extendTaskLease (nodeId : NodeId) : Server Unit := do
  match ← Server.getNode nodeId with
  | none => return ()
  | some node =>
    match node.currentTask with
    | none => return ()
    | some currentTid =>
      match ← Server.getTask currentTid with
      | none => return ()
      | some task =>
        if task.status.live then
          let current ← Server.time
          Server.hsetTask currentTid (·.extendLease current)
        else return ()

/-! ## Jobs -/

/-- The arguments of `create_job`, and the id and token it draws. -/
structure CreateJob where
  jobId : JobId
  jobToken : Token
  pid : Pid
  name : String
  metadataJson : String
  totalTasks : Nat

/-- `create_job`. -/
def createJob (a : CreateJob) : Server JobId := do
  let timestamp ← Server.time
  Server.putJob a.jobId {
    jobToken := a.jobToken
    pid := a.pid
    name := a.name
    status := .queued
    totalTasks := a.totalTasks
    createdAt := timestamp
    updatedAt := timestamp
    metadataJson := a.metadataJson }
  return a.jobId

/-- `_task_summary`. -/
structure TaskSummary where
  tid : Tid
  taskName : String
  filename : String
  runtime : Runtime
  status : TaskStatus
  assignedNode : Option NodeId
  error : Option String
  createdAt : Time
  claimedAt : Option Time
  completedAt : Option Time
  /-- `shard_index` and `shard_total`, for a task of more than one shard. -/
  shard : Option (Nat × Nat)
deriving DecidableEq

def taskSummary (task : Task) (tid : Tid) : TaskSummary where
  tid := tid
  taskName := if task.taskName = "" then stem task.filename else task.taskName
  filename := task.filename
  runtime := task.runtime
  status := task.status
  assignedNode := task.assignedNode
  error := if task.error = "" then none else some task.error
  createdAt := task.createdAt
  claimedAt := task.claimedAt
  completedAt := task.completedAt
  shard := if 1 < task.shardTotal.getD 0 then
    some (task.shardIndex.getD 0, task.shardTotal.getD 0) else none

structure Counts where
  queued : Nat
  claimed : Nat
  running : Nat
  completed : Nat
  failed : Nat
deriving DecidableEq

/-- The `counts` of `refresh_job_status`. -/
def countStatuses (tasks : List (Tid × Task)) : Counts where
  queued := tasks.countP (·.2.status = .queued)
  claimed := tasks.countP (·.2.status = .claimed)
  running := tasks.countP (·.2.status = .running)
  completed := tasks.countP (·.2.status = .completed)
  failed := tasks.countP (·.2.status = .failed)

/-- What `refresh_job_status` returns. -/
structure JobSummary where
  jobId : JobId
  status : JobStatus
  done : Bool
  totalTasks : Nat
  counts : Counts
  tasks : List TaskSummary
deriving DecidableEq

/-- What `refresh_job_status` makes of the tasks it has read for a list of ids. -/
def summarize (jobId : JobId) (taskIds : List Tid) (tasks : List (Tid × Task)) : JobSummary :=
  let counts := countStatuses tasks
  let totalTasks := taskIds.length
  let done := decide (0 < totalTasks ∧ counts.completed + counts.failed = totalTasks)
  { jobId := jobId
    status :=
      if done = true ∧ counts.failed ≠ 0 then .failed
      else if done = true then .completed
      else if counts.running ≠ 0 ∨ counts.claimed ≠ 0 then .running
      else .queued
    done := done
    totalTasks := totalTasks
    counts := counts
    tasks := tasks.map fun t ↦ taskSummary t.2 t.1 }

/-- `refresh_job_status`. -/
def refreshJobStatus (jobId : JobId) : Server JobSummary := do
  let taskIds ← Server.getJobTaskIds jobId
  let tasks ← collect taskIds fun tid ↦ do
    let task ← Server.getTask tid
    return task.map fun task ↦ (tid, task)
  let summary := summarize jobId taskIds tasks
  let timestamp ← Server.time
  Server.hsetJob jobId fun job ↦ { job with status := summary.status, updatedAt := timestamp }
  return summary

/-! ## The ends of a task -/

/-- The fields `complete_task` sets on the task. -/
def Task.complete (task : Task) (resultPath : Path) (timestamp : Time) : Task :=
  { task with
    status := .completed
    resultPath := some resultPath
    error := ""
    claimToken := none
    downloadToken := none
    leaseExpiresAt := none
    completedAt := some timestamp
    updatedAt := timestamp }

/-- The fields `fail_task` sets on the task. -/
def Task.fail (task : Task) (errorMessage : String) (timestamp : Time) : Task :=
  { task with
    status := .failed
    error := errorMessage
    claimToken := none
    downloadToken := none
    leaseExpiresAt := none
    completedAt := some timestamp
    updatedAt := timestamp }

def Node.endTask (node : Node) (timestamp : Time) : Node :=
  { node with currentTask := none, lastSeen := timestamp }

/-- `complete_task`; `none` is the `KeyError` for a task that does not exist. -/
def completeTask (tid : Tid) (nodeId : NodeId) (resultBytes : List UInt8) :
    Server (Option JobSummary) := do
  match ← Server.getTask tid with
  | none => return none
  | some task =>
    let resultPath := Path.result task.jobId tid
    Server.write (·.putFile resultPath (.bytes resultBytes)) []
    let timestamp ← Server.time
    Server.hsetTask tid (·.complete resultPath timestamp)
    Server.hsetNode nodeId (·.endTask timestamp)
    Server.write (·.dropFile task.blobPath) []
    let summary ← refreshJobStatus task.jobId
    return some summary

/-- `fail_task`; `none` is the `KeyError` for a task that does not exist. -/
def failTask (tid : Tid) (nodeId : NodeId) (errorMessage : String) :
    Server (Option JobSummary) := do
  match ← Server.getTask tid with
  | none => return none
  | some task =>
    let timestamp ← Server.time
    Server.hsetTask tid (·.fail errorMessage timestamp)
    Server.hsetNode nodeId (·.endTask timestamp)
    Server.write (·.dropFile task.blobPath) []
    let summary ← refreshJobStatus task.jobId
    return some summary

end TandemAio
