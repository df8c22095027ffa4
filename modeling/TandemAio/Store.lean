import Mathlib.Data.List.Sort
import Mathlib.Data.String.Basic
import Mathlib.Logic.Function.Basic
import Mathlib.Tactic.Simps.Basic
import TandemAio.Reasoning.Prog

/-!
# The server's state

What the server keeps in Redis, in its database and on disk, as far as the compute side uses it,
and the single commands the server runs on it.  A hash field that Redis keeps as `""` when there
is no value is an `Option` here, with `none` for `""`.
-/

open Reasoning

namespace TandemAio

/-- The characters of a generated id or token: hex digits behind a `tid_`, `node_` or `job_`
prefix, and the url-safe base64 of `secrets.token_urlsafe`. -/
def idChar (c : Char) : Bool := c.isAlphanum || c == '_' || c == '-'

/-- An id or a token: never empty, and without white space, so that the source's `.strip()` and
its tests for an empty string are settled by the type. -/
structure Name where
  text : String
  valid : text ≠ "" ∧ text.toList.all idChar = true
deriving DecidableEq

theorem Name.text_injective : Function.Injective Name.text := by
  rintro ⟨a, ha⟩ ⟨b, hb⟩ rfl
  rfl

/-- Ids are ordered as Python orders strings. -/
instance : LinearOrder Name := LinearOrder.lift' Name.text Name.text_injective

abbrev NodeId := Name
abbrev Tid := Name
abbrev JobId := Name
abbrev Token := Name
abbrev ApiKey := Name
abbrev Pid := Name

/-- Clock readings, in microseconds. -/
abbrev Time := Int

def second : Time := 1000000

def nodeStaleSeconds : Time := 5 * second
def taskLeaseSeconds : Time := 30 * second

/-! ## Keys, ciphertexts and signatures

Ideal cryptography: a ciphertext names the key that opens it and a signature names its signer and
its message. -/

/-- What `load_pem_public_key` makes of a registered PEM; `rsa` names the key pair.  A key of
another kind wraps nothing, and verifying with it raises an exception with the text
`verifyError`. -/
inductive PublicKey
  | rsa (pair : Nat)
  | other (verifyError : String)
deriving DecidableEq

/-- File contents. `aesGcm dek iv plain` is the AES-GCM ciphertext of `plain`. -/
inductive Blob
  | bytes (data : List UInt8)
  | aesGcm (dek iv : Nat) (plain : Blob)
deriving DecidableEq

/-- A data encryption key under RSA-OAEP. -/
structure WrappedDek where
  pair : Nat
  dek : Nat
deriving DecidableEq

inductive Signature
  | pss (pair : Nat) (message : String)
  | garbage
deriving DecidableEq

/-- `public_key.encrypt`; only an RSA key has it. -/
def PublicKey.encrypt : PublicKey → Nat → Option WrappedDek
  | .rsa pair, dek => some ⟨pair, dek⟩
  | .other _, _ => none

/-- `public_key.verify`. -/
def PublicKey.verify : PublicKey → Signature → String → Bool
  | .rsa pair, .pss signer signed, message => signer == pair && signed == message
  | _, _, _ => false

/-! ## Records -/

inductive Runtime
  | cloudpickle
  | wasm
deriving DecidableEq

inductive TaskStatus
  | queued
  | claimed
  | running
  | completed
  | failed
deriving DecidableEq

/-- `status in {"claimed", "running"}`. -/
def TaskStatus.live : TaskStatus → Bool
  | .claimed | .running => true
  | _ => false

/-- `status in {"completed", "failed"}`. -/
def TaskStatus.finished : TaskStatus → Bool
  | .completed | .failed => true
  | _ => false

/-- Blob and result files under the storage root. -/
inductive Path
  | task (jobId : JobId) (tid : Tid) (filename : String)
  | result (jobId : JobId) (tid : Tid)
deriving DecidableEq

/-- The hash `task:<tid>`. -/
structure Task where
  jobId : JobId
  pid : Pid
  name : String
  taskName : String
  filename : String
  runtime : Runtime
  timeoutMs : Option Nat
  shardIndex : Option Nat
  shardTotal : Option Nat
  status : TaskStatus
  assignedNode : Option NodeId
  blobPath : Path
  resultPath : Option Path
  error : String
  claimToken : Option Token
  downloadToken : Option Token
  createdAt : Time
  updatedAt : Time
  claimedAt : Option Time
  completedAt : Option Time
  leaseExpiresAt : Option Time
deriving DecidableEq

/-- The hash `node:<id>`. The flags are the strings Redis keeps. -/
structure Node where
  nodeToken : Token
  lastSeen : Time
  supportsWasm : Option String
  supportsCloudpickle : Option String
  ownerUserId : Option Nat
  currentTask : Option Tid
deriving DecidableEq

/-- `queued`, `running`, `completed` and `failed`, the statuses of a job. -/
inductive JobStatus
  | queued
  | running
  | completed
  | failed
deriving DecidableEq

/-- The hash `job:<id>`. -/
structure Job where
  jobToken : Token
  pid : Pid
  name : String
  status : JobStatus
  totalTasks : Nat
  createdAt : Time
  updatedAt : Time
  metadataJson : String
deriving DecidableEq

/-- A row of `task_encryption_keys`. -/
structure TaskEncryptionKey where
  jobId : JobId
  encryptedDek : WrappedDek
  iv : Nat
  targetNodeId : NodeId
deriving DecidableEq

/-- A row of `deployments`. -/
structure Deployment where
  name : String
  apiKey : Option ApiKey
deriving DecidableEq

/-- The lists tasks wait in: `node:<id>:queue`, `tasks:unassigned` and
`tasks:unassigned:wasm`. -/
inductive QueueKey
  | node (nodeId : NodeId)
  | unassigned (runtime : Runtime)
deriving DecidableEq

structure Store where
  clock : Time
  /-- The set `nodes`. -/
  nodes : List NodeId
  node : NodeId → Option Node
  queue : QueueKey → List Tid
  task : Tid → Option Task
  job : JobId → Option Job
  /-- The list `job:<id>:tasks`. -/
  jobTasks : JobId → List Tid
  /-- The counter `node:<id>:bad_receipts`. -/
  badReceipts : NodeId → Nat
  /-- The counter `quota:<api key>:instructions_used`. -/
  instructionsUsed : ApiKey → Option Int
  nodePublicKey : NodeId → Option PublicKey
  taskEncryptionKey : Tid → Option TaskEncryptionKey
  deployment : Pid → Option Deployment
  /-- Rows of `user_api_rel`: the user an API key belongs to. -/
  userApi : ApiKey → Option Nat
  file : Path → Option Blob
  /-- `NODE_REGISTRATION_TOKEN` of the server's configuration. -/
  nodeRegistrationToken : Option Token

namespace Store

/-- A server before its first request, with the rows `deployments` and `user_api_rel` hold. -/
def initial (deployment : Pid → Option Deployment) (userApi : ApiKey → Option Nat)
    (nodeRegistrationToken : Option Token) : Store where
  clock := 0
  nodes := []
  node := fun _ ↦ none
  queue := fun _ ↦ []
  task := fun _ ↦ none
  job := fun _ ↦ none
  jobTasks := fun _ ↦ []
  badReceipts := fun _ ↦ 0
  instructionsUsed := fun _ ↦ none
  nodePublicKey := fun _ ↦ none
  taskEncryptionKey := fun _ ↦ none
  deployment := deployment
  userApi := userApi
  file := fun _ ↦ none
  nodeRegistrationToken := nodeRegistrationToken

/-! ## What single commands do -/

@[simps] def putTask (s : Store) (tid : Tid) (task : Task) : Store :=
  { s with task := Function.update s.task tid (some task) }

/-- `HSET` of some fields of a task hash that exists. -/
@[simps] def modifyTask (s : Store) (tid : Tid) (f : Task → Task) : Store :=
  { s with task := Function.update s.task tid ((s.task tid).map f) }

@[simps] def dropTask (s : Store) (tid : Tid) : Store :=
  { s with task := Function.update s.task tid none }

@[simps] def putNode (s : Store) (nodeId : NodeId) (node : Node) : Store :=
  { s with node := Function.update s.node nodeId (some node) }

/-- `HSET` of some fields of a node hash that exists. -/
@[simps] def modifyNode (s : Store) (nodeId : NodeId) (f : Node → Node) : Store :=
  { s with node := Function.update s.node nodeId ((s.node nodeId).map f) }

/-- `RPUSH`. -/
@[simps] def push (s : Store) (key : QueueKey) (tid : Tid) : Store :=
  { s with queue := Function.update s.queue key (s.queue key ++ [tid]) }

/-- `LPOP`, as far as the list goes. -/
@[simps] def pop (s : Store) (key : QueueKey) : Store :=
  { s with queue := Function.update s.queue key (s.queue key).tail }

/-- `SADD nodes`. -/
@[simps] def addMember (s : Store) (nodeId : NodeId) : Store :=
  { s with nodes := s.nodes.insert nodeId }

/-- `SREM nodes`. -/
@[simps] def removeMember (s : Store) (nodeId : NodeId) : Store :=
  { s with nodes := s.nodes.filter (· ≠ nodeId) }

@[simps] def putJob (s : Store) (jobId : JobId) (job : Job) : Store :=
  { s with job := Function.update s.job jobId (some job) }

@[simps] def modifyJob (s : Store) (jobId : JobId) (f : Job → Job) : Store :=
  { s with job := Function.update s.job jobId ((s.job jobId).map f) }

@[simps] def dropJob (s : Store) (jobId : JobId) : Store :=
  { s with job := Function.update s.job jobId none }

@[simps] def pushJobTask (s : Store) (jobId : JobId) (tid : Tid) : Store :=
  { s with jobTasks := Function.update s.jobTasks jobId (s.jobTasks jobId ++ [tid]) }

@[simps] def bumpBadReceipts (s : Store) (nodeId : NodeId) : Store :=
  { s with badReceipts := Function.update s.badReceipts nodeId (s.badReceipts nodeId + 1) }

@[simps] def charge (s : Store) (apiKey : ApiKey) (amount : Int) : Store :=
  { s with
    instructionsUsed := Function.update s.instructionsUsed apiKey
      (some ((s.instructionsUsed apiKey).getD 0 + amount)) }

@[simps] def putPublicKey (s : Store) (nodeId : NodeId) (key : PublicKey) : Store :=
  { s with nodePublicKey := Function.update s.nodePublicKey nodeId (some key) }

@[simps] def putTaskKey (s : Store) (tid : Tid) (row : TaskEncryptionKey) : Store :=
  { s with taskEncryptionKey := Function.update s.taskEncryptionKey tid (some row) }

@[simps] def dropTaskKey (s : Store) (tid : Tid) : Store :=
  { s with taskEncryptionKey := Function.update s.taskEncryptionKey tid none }

@[simps] def putFile (s : Store) (path : Path) (blob : Blob) : Store :=
  { s with file := Function.update s.file path (some blob) }

@[simps] def dropFile (s : Store) (path : Path) : Store :=
  { s with file := Function.update s.file path none }

@[simps] def setClock (s : Store) (now : Time) : Store :=
  { s with clock := now }

end Store

/-! ## The server's commands

A thread that reads or writes a task hash, or takes an id from a queue, has looked at that task. -/

/-- What the server runs. -/
abbrev Server := Prog Store Tid

namespace Server

def read {ρ : Type} (f : Store → ρ) (seen : ρ → List Tid) : Server ρ :=
  .cmd ⟨fun s ↦ (f s, s), seen⟩ .ret

def write (f : Store → Store) (seen : List Tid) : Server Unit :=
  .cmd ⟨fun s ↦ ((), f s), fun _ ↦ seen⟩ .ret

@[simp] theorem wp_read {ρ : Type} (f : Store → ρ) (seen : ρ → List Tid)
    (Q : ρ → Store → Prop) (s : Store) : Prog.wp (read f seen) Q s ↔ Q (f s) s := by
  simp only [read, Prog.wp_cmd, Prog.wp_ret]

@[simp] theorem wp_write (f : Store → Store) (seen : List Tid) (Q : Unit → Store → Prop)
    (s : Store) : Prog.wp (write f seen) Q s ↔ Q () (f s) := by
  simp only [write, Prog.wp_cmd, Prog.wp_ret]

theorem always_write (f : Store → Store) (seen : List Tid) (Q : Store → Prop) (s : Store) :
    Prog.always (write f seen) Q s ↔ Q s ∧ Q (f s) := by
  simp only [write, Prog.always_cmd, Prog.always_ret]

theorem always_read_bind {ρ α : Type} (f : Store → ρ) (seen : ρ → List Tid) (k : ρ → Server α)
    (Q : Store → Prop) (s : Store) :
    Prog.always (read f seen >>= k) Q s ↔ Prog.always (k (f s)) Q s := by
  have hcmd : Prog.always (read f seen >>= k) Q s ↔ Q s ∧ Prog.always (k (f s)) Q s :=
    Prog.always_cmd _ _ Q s
  exact hcmd.trans ⟨And.right, fun h ↦ ⟨h.start, h⟩⟩

theorem always_write_bind {α : Type} (f : Store → Store) (seen : List Tid) (k : Unit → Server α)
    (Q : Store → Prop) (s : Store) :
    Prog.always (write f seen >>= k) Q s ↔ Q s ∧ Prog.always (k ()) Q (f s) :=
  Prog.always_cmd _ _ Q s

abbrev time : Server Time := read (·.clock) fun _ ↦ []

abbrev getTask (tid : Tid) : Server (Option Task) := read (·.task tid) fun _ ↦ [tid]

abbrev putTask (tid : Tid) (task : Task) : Server Unit := write (·.putTask tid task) [tid]

abbrev hsetTask (tid : Tid) (f : Task → Task) : Server Unit := write (·.modifyTask tid f) [tid]

abbrev getNode (nodeId : NodeId) : Server (Option Node) := read (·.node nodeId) fun _ ↦ []

abbrev putNode (nodeId : NodeId) (node : Node) : Server Unit := write (·.putNode nodeId node) []

abbrev hsetNode (nodeId : NodeId) (f : Node → Node) : Server Unit :=
  write (·.modifyNode nodeId f) []

def lpop (key : QueueKey) : Server (Option Tid) :=
  .cmd ⟨fun s ↦ ((s.queue key).head?, s.pop key), Option.toList⟩ .ret

@[simp] theorem wp_lpop (key : QueueKey) (Q : Option Tid → Store → Prop) (s : Store) :
    Prog.wp (lpop key) Q s ↔ Q (s.queue key).head? (s.pop key) := by
  simp only [lpop, Prog.wp_cmd, Prog.wp_ret]

theorem always_lpop_bind {α : Type} (key : QueueKey) (k : Option Tid → Server α)
    (Q : Store → Prop) (s : Store) : Prog.always (lpop key >>= k) Q s ↔
      Q s ∧ Prog.always (k (s.queue key).head?) Q (s.pop key) :=
  Prog.always_cmd _ _ Q s

abbrev rpush (key : QueueKey) (tid : Tid) : Server Unit := write (·.push key tid) [tid]

abbrev smembersNodes : Server (List NodeId) := read (·.nodes) fun _ ↦ []

abbrev saddNodes (nodeId : NodeId) : Server Unit := write (·.addMember nodeId) []

abbrev sremNodes (nodeId : NodeId) : Server Unit := write (·.removeMember nodeId) []

def incrBadReceipts (nodeId : NodeId) : Server Nat :=
  .cmd ⟨fun s ↦ (s.badReceipts nodeId + 1, s.bumpBadReceipts nodeId), fun _ ↦ []⟩ .ret

@[simp] theorem wp_incrBadReceipts (nodeId : NodeId) (Q : Nat → Store → Prop) (s : Store) :
    Prog.wp (incrBadReceipts nodeId) Q s ↔
      Q (s.badReceipts nodeId + 1) (s.bumpBadReceipts nodeId) := by
  simp only [incrBadReceipts, Prog.wp_cmd, Prog.wp_ret]

abbrev putJob (jobId : JobId) (job : Job) : Server Unit := write (·.putJob jobId job) []

abbrev hsetJob (jobId : JobId) (f : Job → Job) : Server Unit := write (·.modifyJob jobId f) []

abbrev getJobTaskIds (jobId : JobId) : Server (List Tid) := read (·.jobTasks jobId) fun _ ↦ []

abbrev rpushJobTask (jobId : JobId) (tid : Tid) : Server Unit :=
  write (·.pushJobTask jobId tid) [tid]

end Server

end TandemAio
