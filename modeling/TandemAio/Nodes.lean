import TandemAio.Zkp

/-!
# `app/blueprints/nodes.py`

The requests of compute nodes.  A handler answers with a `Response`; an exception the handler does
not catch is `Response.serverError`.
-/

open Reasoning Reasoning.Prog

namespace TandemAio

/-- The JSON answer of `claim_task`. -/
structure ClaimResponse where
  tid : Tid
  jobId : JobId
  taskName : String
  filename : String
  runtime : Runtime
  claimToken : Option Token
  /-- The last segment of `download_url`. -/
  downloadToken : Option Token
  timeoutMs : Option Nat
  shard : Option (Nat × Nat)
deriving DecidableEq

/-- The headers `X-Task-Dek-Encrypted` and `X-Task-IV`. -/
structure DekHeaders where
  encryptedDek : WrappedDek
  iv : Nat
deriving DecidableEq

inductive Response
  | error (status : Nat) (error : String)
  | serverError
  | noContent
  | alive
  | registered (nodeId : NodeId) (nodeToken : Token)
  | claimed (task : ClaimResponse)
  | blob (data : Blob) (mimetype downloadName : String) (headers : Option DekHeaders)
  | result (status : TaskStatus) (jobStatus : JobStatus) (counts : Counts)
  | nodeIds (nodeIds : List NodeId)
  | jobCreated (jobId : JobId)
  | taskCreated (tid : Tid)
  | summary (summary : JobSummary)
  | silent
deriving DecidableEq

/-- `X-Node-Id` and the bearer token of a node's request. -/
structure NodeAuth where
  nodeId : Option NodeId
  token : Option Token
deriving DecidableEq

/-- `_require_node_auth`. -/
def requireNodeAuth (auth : NodeAuth) : Server (Except Response (NodeId × Node)) := do
  match auth.nodeId with
  | none => return .error (.error 400 "Missing node_id")
  | some nodeId =>
    match auth.token with
    | none => return .error (.error 401 "Missing bearer token")
    | some token =>
      match ← Server.getNode nodeId with
      | none => return .error (.error 404 "Unknown node_id")
      | some node =>
        if compareToken (some node.nodeToken) (some token) then return .ok (nodeId, node)
        else return .error (.error 403 "Invalid node token")

/-- `health`. -/
def health (auth : NodeAuth) : Server Response := do
  match ← requireNodeAuth auth with
  | .error response => return response
  | .ok (nodeId, _) =>
    let timestamp ← Server.time
    Server.hsetNode nodeId fun node ↦ { node with lastSeen := timestamp }
    Server.saddNodes nodeId
    extendTaskLease nodeId
    return .alive

/-- The `rsa_public_key_pem` of a registration, by what `load_pem_public_key` makes of it. -/
inductive Pem
  | absent
  | invalid
  /-- A JSON value that has no `strip`. -/
  | notText
  | key (key : PublicKey)
deriving DecidableEq

/-- The request content of a registration, and the node id and token it draws. -/
structure Register where
  nodeId : NodeId
  nodeToken : Token
  bearer : Option Token
  supportsWasm : Bool
  pem : Pem

/-- `_resolve_registration_identity`: the owner, or a refusal. -/
def resolveRegistrationIdentity (provided : Option Token) :
    Server (Except Response (Option Nat)) := do
  let owner ← Server.read (fun s ↦ provided.bind s.userApi) fun _ ↦ []
  match owner with
  | some userId => return .ok (some userId)
  | none =>
    match ← Server.read (·.nodeRegistrationToken) fun _ ↦ [] with
    | none => return .ok none
    | some expected =>
      match provided with
      | none => return .error (.error 401 "Missing node registration bearer token")
      | some provided =>
        if compareToken (some expected) (some provided) then return .ok none
        else return .error (.error 403 "Invalid node registration token")

/-- `_as_capability_flag`. -/
def asCapabilityFlag (value : Bool) : String := if value then "1" else "0"

/-- The node hash `register` writes. -/
def Register.node (a : Register) (owner : Option Nat) (timestamp : Time) : Node where
  nodeToken := a.nodeToken
  lastSeen := timestamp
  supportsWasm := some (asCapabilityFlag a.supportsWasm)
  supportsCloudpickle := none
  ownerUserId := owner
  currentTask := none

/-- `register`. -/
def register (a : Register) : Server Response := do
  match ← resolveRegistrationIdentity a.bearer with
  | .error response => return response
  | .ok owner =>
    let timestamp ← Server.time
    Server.putNode a.nodeId (a.node owner timestamp)
    Server.saddNodes a.nodeId
    match a.pem with
    | .absent => return .registered a.nodeId a.nodeToken
    | .invalid => return .error 400 "Invalid RSA public key PEM"
    | .notText => return .serverError
    | .key key =>
      Server.write (·.putPublicKey a.nodeId key) []
      return .registered a.nodeId a.nodeToken

/-- The answer `claim_task` builds from a task hash. -/
def claimResponse (tid : Tid) (task : Task) : ClaimResponse where
  tid := tid
  jobId := task.jobId
  taskName := task.taskName
  filename := task.filename
  runtime := task.runtime
  claimToken := task.claimToken
  downloadToken := task.downloadToken
  timeoutMs := task.timeoutMs
  shard := match task.shardIndex, task.shardTotal with
    | some index, some total => some (index, total)
    | _, _ => none

/-- `claim_task`. -/
def claimTask (auth : NodeAuth) (claimToken downloadToken : Token) : Server Response := do
  match ← requireNodeAuth auth with
  | .error response => return response
  | .ok (nodeId, _) =>
    match ← claimTaskForNode nodeId claimToken downloadToken with
    | none => return .noContent
    | some (tid, task) => return .claimed (claimResponse tid task)

/-- `_task_mimetype`. -/
def taskMimetype (task : Task) : String :=
  if task.runtime = .wasm then "application/wasm" else "application/octet-stream"

/-- The fields `download_task_blob` sets on the task. -/
def Task.start (task : Task) (timestamp : Time) : Task :=
  { task with
    status := .running
    updatedAt := timestamp
    leaseExpiresAt := some (timestamp + taskLeaseSeconds) }

/-- `download_task_blob`. -/
def downloadTaskBlob (auth : NodeAuth) (tid : Tid) (downloadToken : Option Token) :
    Server Response := do
  match ← requireNodeAuth auth with
  | .error response => return response
  | .ok (nodeId, _) =>
    match ← Server.getTask tid with
    | none => return .error 404 "Unknown task id"
    | some task =>
      if task.assignedNode ≠ some nodeId then return .error 403 "Task is assigned to another node"
      else if compareToken task.downloadToken downloadToken = false then
        return .error 403 "Invalid download token"
      else
        match ← Server.read (·.file task.blobPath) fun _ ↦ [] with
        | none => return .error 404 "Task payload is missing"
        | some data =>
          let timestamp ← Server.time
          Server.hsetTask tid (·.start timestamp)
          let row ← Server.read (·.taskEncryptionKey tid) fun _ ↦ []
          match row with
          | none => return .blob data (taskMimetype task) task.filename none
          | some row =>
            -- `_cleanup_enc_key`, once the answer is built
            Server.write (·.dropTaskKey tid) []
            return .blob data (taskMimetype task) task.filename (some ⟨row.encryptedDek, row.iv⟩)

/-- The body of a result submission. -/
inductive ResultBody
  /-- `application/octet-stream`, with the `X-Execution-Receipt` header. -/
  | octetStream (resultBytes : List UInt8) (receipt : ReceiptHeader)
  /-- Anything else is a failure report with an error text. -/
  | failure (error : String)
  /-- A JSON body from which reading the error text raises. -/
  | malformed
deriving DecidableEq

/-- The text of a failure report; an empty one gets a default. -/
def failureMessage (error : String) : String :=
  strStrip (if error = "" then "Task execution failed" else error)

/-- `submit_task_result` on a receipt that does not verify. -/
def rejectReceipt (tid : Tid) (nodeId : NodeId) (reason : String) : Server Response := do
  let badCount ← Server.incrBadReceipts nodeId
  if badReceiptThreshold ≤ badCount then
    Server.sremNodes nodeId
    requeueTask tid none
    return .error 403 ("Receipt verification failed: " ++ reason)
  else
    requeueTask tid none
    return .error 403 ("Receipt verification failed: " ++ reason)

/-- The charge of `submit_task_result`; `false` when it raises. -/
def chargeUsage (pid : Pid) (receipt : Receipt) : Server Bool := do
  match ← Server.read (·.deployment pid) fun _ ↦ [] with
  | none => return true
  | some deployment =>
    match deployment.apiKey with
    | none => return true
    | some apiKey => recordUsage apiKey receipt.countField

/-- The answer to a submission that ended its task. -/
def resultResponse (status : TaskStatus) : Option JobSummary → Response
  | some summary => .result status summary.status summary.counts
  | none => .serverError

/-- `submit_task_result` on a receipt that verifies. -/
def acceptResult (tid : Tid) (nodeId : NodeId) (task : Task) (resultBytes : List UInt8)
    (receipt : Receipt) : Server Response := do
  if ← chargeUsage task.pid receipt then
    let summary ← completeTask tid nodeId resultBytes
    return resultResponse .completed summary
  else return .serverError

/-- `submit_task_result` once the node, the task and the claim token are settled. -/
def submitBody [Sha256] (tid : Tid) (nodeId : NodeId) (task : Task) :
    ResultBody → Server Response
  | .octetStream resultBytes header =>
    match header with
    | .missing => return .error 400 "Missing X-Execution-Receipt header"
    | .undecodable => return .error 400 "Could not decode execution receipt"
    | .noObject => do
      -- reading a field raises, unless the node has no key and no field is read
      match ← Server.read (·.nodePublicKey nodeId) fun _ ↦ [] with
      | none => rejectReceipt tid nodeId ("No registered public key for node " ++ nodeId.text)
      | some _ => return .serverError
    | .object receipt => do
      let key ← Server.read (·.nodePublicKey nodeId) fun _ ↦ []
      match receiptVerdict key receipt resultBytes nodeId with
      | .verified => acceptResult tid nodeId task resultBytes receipt
      | .rejected reason => rejectReceipt tid nodeId reason
      | .raised => return .serverError
  | .failure error => do
    let summary ← failTask tid nodeId (failureMessage error)
    return resultResponse .failed summary
  | .malformed => return .serverError

/-- `submit_task_result`. -/
def submitTaskResult [Sha256] (auth : NodeAuth) (tid : Tid) (claimToken : Option Token)
    (body : ResultBody) : Server Response := do
  match ← requireNodeAuth auth with
  | .error response => return response
  | .ok (nodeId, _) =>
    match ← Server.getTask tid with
    | none => return .error 404 "Unknown task id"
    | some task =>
      if task.assignedNode ≠ some nodeId then return .error 403 "Task is assigned to another node"
      else if compareToken task.claimToken claimToken = false then
        return .error 403 "Invalid claim token"
      else submitBody tid nodeId task body

end TandemAio
