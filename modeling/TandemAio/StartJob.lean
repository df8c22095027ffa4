import TandemAio.Accounts
import TandemAio.Moves
import TandemAio.Purge
import TandemAio.Start

/-!
# `app/blueprints/start.py` and `app/utils/quota.py`: the request that starts a job

`start` from its first check to its answer.
-/

open Reasoning Reasoning.Prog

namespace TandemAio

/-! ## Quota -/

def quotaDefaultLimit : Int := 1000000000

/-- The keys `quota:<api_key>:instructions_limit`. -/
abbrev QuotaLimits := ApiKey → Option Int

/-- The `info` of `check_quota`. -/
structure QuotaInfo where
  used : Int
  limit : Int
  remaining : Int
deriving DecidableEq

/-- `check_quota` -/
def Store.checkQuota (s : Store) (limits : QuotaLimits) (apiKey : ApiKey) : Bool × QuotaInfo :=
  let used := (s.instructionsUsed apiKey).getD 0
  let limit := (limits apiKey).getD quotaDefaultLimit
  (decide (used < limit), ⟨used, limit, max (limit - used) 0⟩)

/-! ## The request -/

/-- What `parse_toml_string` makes of the uploaded config: an exception, or the name and the
metadata that `extract_name` and `get_relevant` find in it. -/
inductive Toml
  | raises
  | parsed (name : Option String) (metadataJson : String)

/-- What `_read_manifest_upload` finds. An entry that is no JSON object is `none`. -/
inductive ManifestFile
  | empty
  /-- A `ValueError` of `json.loads`, with the text it is answered with. -/
  | invalid (message : String)
  /-- Any other exception, as for JSON that is no object. -/
  | raises
  | noTasks
  | tasks (entries : List (Option ManifestEntry))

/-- The files of a job. -/
inductive StartFiles
  | wasm (manifest : ManifestFile) (wasmFiles : List Upload)
  | cloudpickle (pickleFiles : List Upload)

structure StartRequest where
  tomlFile : Option Toml
  pid : Option Pid
  apiKey : Option ApiKey
  /-- `none` when there are `wasm_files` and no `manifest_file`. -/
  files : Option StartFiles

/-- What the server draws for a task of the job. -/
structure TaskDraw where
  tid : Tid
  dek : Nat
  iv : Nat

/-- What the server draws for a job, task by task. -/
structure StartDraws where
  jobId : JobId
  jobToken : Token
  task : Nat → TaskDraw

inductive StartReply
  | error (status : Nat) (error : String)
  | quotaExceeded (info : QuotaInfo)
  | nameMismatch (expectedName receivedName : String)
  | serverError
  | queued (pid : Pid) (jobId : JobId) (jobToken : Token) (name : String) (taskIds : List Tid)
      (counts : Counts) (status : JobStatus)
deriving DecidableEq

/-- `require_user_api_key`: the key and its user. -/
def Store.requireUserApiKey (s : Store) (apiKey : Option ApiKey) :
    Except (Nat × String) (ApiKey × Nat) :=
  match apiKey with
  | none => .error (401, "Missing API key")
  | some apiKey =>
    match s.userApi apiKey with
    | none => .error (403, "Invalid API key")
    | some userId => .ok (apiKey, userId)

/-- What `start` knows of a request that it goes on to plan. -/
structure StartChecked where
  pid : Pid
  name : String
  metadataJson : String

/-- `start` up to its planning. -/
def StartRequest.check (r : StartRequest) (limits : QuotaLimits) (s : Store) :
    Except StartReply StartChecked :=
  match r.tomlFile, r.pid with
  | none, _ => .error (.error 400 "Missing TOML config file")
  | some _, none => .error (.error 400 "Missing deployment pid")
  | some toml, some pid =>
    match s.requireUserApiKey r.apiKey with
    | .error (status, message) => .error (.error status message)
    | .ok (apiKey, userId) =>
      let (underQuota, info) := s.checkQuota limits apiKey
      if !underQuota then .error (.quotaExceeded info)
      else
        match s.deployment pid with
        | none => .error (.error 404 "Unknown deployment pid")
        | some deployment =>
          match ensureDeploymentAccess s.userApi userId deployment, toml with
          | some (status, message), _ => .error (.error status message)
          | none, .raises => .error .serverError
          | none, .parsed tomlName metadataJson =>
            let name := (tomlName.filter (· ≠ "")).getD deployment.name
            if deployment.name ≠ "" ∧ name ≠ "" ∧ deployment.name ≠ name then
              .error (.nameMismatch deployment.name name)
            else .ok ⟨pid, name, metadataJson⟩

/-! ## Planning -/

/-- The loop of `_plan_cloudpickle_tasks`. -/
def planPickles [AsciiFold] (queued : NodeId → Nat) (available : AvailableNodes) :
    List Upload → NodeLoad → Plan (List PlannedTask)
  | [], _ => .ok []
  | pickleFile :: rest, load =>
    let secure := secureFilename pickleFile.filename
    let filename := if secure = "" then "task.pkl" else secure
    if pickleFile.payload = [] then
      Plan.valueError ("Cloudpickle file " ++ quoted filename ++ " was empty")
    else do
      let (node, load) := selectLeastLoadedNode queued available load
      let planned ← planPickles queued available rest load
      return ⟨filename, pickleFile.payload, node, stem filename, none, none⟩ :: planned

/-- `_plan_cloudpickle_tasks` -/
def planCloudpickleTasks [AsciiFold] (queued : NodeId → Nat) (available : AvailableNodes)
    (pickleFiles : List Upload) : Plan (List PlannedTask) :=
  if pickleFiles = [] then Plan.valueError "No cloudpickle files provided"
  else planPickles queued available pickleFiles fun _ ↦ 0

/-- `_plan_wasm_tasks` of a manifest that may have entries that are no objects. -/
def planManifest [AsciiFold] (queued : NodeId → Nat) (available : AvailableNodes)
    (entries : List (Option ManifestEntry)) (wasmFiles : List Upload) : Plan (List PlannedTask) :=
  let before := (entries.takeWhile Option.isSome).filterMap id
  if before.length = entries.length then planWasmTasks queued available before wasmFiles
  else do
    let uploads ← collectWasmUploads wasmFiles
    let _ ← planEntries queued available uploads before fun _ ↦ 0
    Plan.valueError "Manifest task entries must be JSON objects"

/-- The planning of `start`, once there are nodes. An exception that is no `ValueError` is
`overflowError`. -/
def StartFiles.plan [AsciiFold] (queued : NodeId → Nat) (available : AvailableNodes) :
    StartFiles → Plan (List PlannedTask)
  | .cloudpickle pickleFiles => planCloudpickleTasks queued available pickleFiles
  | .wasm manifest wasmFiles =>
    match manifest with
    | .empty => Plan.valueError "Manifest file was empty"
    | .invalid message => Plan.valueError message
    | .raises => .error .overflowError
    | .noTasks => Plan.valueError "Manifest did not include any tasks"
    | .tasks entries => planManifest queued available entries wasmFiles

/-! ## Queueing -/

/-- What stands behind the server: whether the file system takes a file name, and whether the
client of Redis can encode a text. -/
class Storage where
  takesName : String → Bool
  encodable : String → Bool

/-- The runtime of the tasks. -/
def StartFiles.runtime : StartFiles → Runtime
  | .cloudpickle _ => .cloudpickle
  | .wasm _ _ => .wasm

/-- The argument of `get_available_nodes`. -/
def StartFiles.requiredRuntime : StartFiles → Option Runtime
  | .cloudpickle _ => none
  | .wasm _ _ => some .wasm

/-- The error without nodes. -/
def StartFiles.noNodes : StartFiles → String
  | .cloudpickle _ => "No healthy nodes found in Redis"
  | .wasm _ _ => "No healthy wasm-capable nodes found in Redis"

/-- The arguments of `create_task` for a planned task. -/
def PlannedTask.create (task : PlannedTask) (runtime : Runtime) (jobId : JobId)
    (checked : StartChecked) (draw : TaskDraw) : CreateTask where
  tid := draw.tid
  dek := draw.dek
  iv := draw.iv
  jobId := jobId
  pid := checked.pid
  name := checked.name
  filename := task.filename
  payload := .bytes task.payload
  assignedNode := some task.assignedNode
  runtime := runtime
  taskName := task.taskName
  timeoutMs := task.timeoutMs
  shardIndex := task.shard.map Prod.fst
  shardTotal := task.shard.map Prod.snd

/-- Whether nothing that the request has sent makes `create_task` raise. -/
def CreateTask.storable [Storage] (a : CreateTask) : Bool :=
  Storage.takesName a.blobPath.name &&
    Storage.encodable (a.task 0).taskName

/-- `create_task`, with the exceptions that the content of a request can cause; `false` when it
raises. -/
def createTaskOrRaise [Storage] (a : CreateTask) : Server Bool := do
  if !Storage.takesName a.blobPath.name then
    -- `OSError`, from the first write
    return false
  else if !Storage.encodable (a.task 0).taskName then
    -- `UnicodeEncodeError`, from the `HSET`
    Server.write (·.putFile a.blobPath (.aesGcm a.dek a.iv a.payload)) []
    let row ← Server.read (fun s ↦ a.keyRow s.nodePublicKey) fun _ ↦ []
    Server.write (·.putRow a.tid row) []
    return false
  else
    let _ ← createTask a
    return true

/-- The loop of `_queue_planned_tasks`; `false` when a `create_task` raises. -/
def createTasks [Storage] : List CreateTask → Server Bool
  | [] => return true
  | a :: rest => do
    if ← createTaskOrRaise a then createTasks rest else return false

/-- The arguments of the `create_task` calls of a job. -/
def StartDraws.creates (draws : StartDraws) (runtime : Runtime) (checked : StartChecked)
    (planned : List PlannedTask) : List CreateTask :=
  planned.mapIdx fun i task ↦ task.create runtime draws.jobId checked (draws.task i)

/-- The arguments of `create_job`. -/
def StartDraws.job (draws : StartDraws) (checked : StartChecked) (planned : List PlannedTask) :
    CreateJob where
  jobId := draws.jobId
  jobToken := draws.jobToken
  pid := checked.pid
  name := checked.name
  metadataJson := checked.metadataJson
  totalTasks := planned.length

/-- `_queue_planned_tasks` -/
def StartDraws.queuePlannedTasks [Storage] (draws : StartDraws) (runtime : Runtime)
    (checked : StartChecked) (planned : List PlannedTask) : Server StartReply := do
  let jobId ← createJob (draws.job checked planned)
  if ← createTasks (draws.creates runtime checked planned) then
    let summary ← refreshJobStatus jobId
    return .queued checked.pid jobId draws.jobToken checked.name (summary.tasks.map (·.tid))
      summary.counts summary.status
  else return .serverError

/-- `start` -/
def start [AsciiFold] [Storage] (limits : QuotaLimits) (r : StartRequest) (draws : StartDraws) :
    Server StartReply := do
  match ← Server.read (r.check limits) fun _ ↦ [] with
  | .error reply => return reply
  | .ok checked =>
    match r.files with
    | none => return .error 400 "Missing manifest file for wasm start"
    | some files =>
      let availableNodes ← getAvailableNodes files.requiredRuntime
      if h : availableNodes = [] then return .error 503 files.noNodes
      else
        let queued ← Server.read (fun s nodeId ↦ (s.queue (.node nodeId)).length) fun _ ↦ []
        match files.plan queued ⟨availableNodes, h⟩ with
        | .error (.valueError message) => return .error 400 message
        | .error .overflowError => return .serverError
        | .ok planned => draws.queuePlannedTasks files.runtime checked planned

/-! ## What a request leaves -/

/-- The id of the job that a reply promises. -/
def StartReply.job : StartReply → Option JobId
  | .queued _ jobId _ _ _ _ _ => some jobId
  | _ => none

/-- What `create_task` leaves, and whether it returns. -/
def Store.createTask [Storage] (s : Store) (a : CreateTask) : Bool × Store :=
  if !Storage.takesName a.blobPath.name then (false, s)
  else if !Storage.encodable (a.task 0).taskName then
    (false, (s.putFile a.blobPath (.aesGcm a.dek a.iv a.payload)).putRow a.tid
      (a.keyRow s.nodePublicKey))
  else (true, s.create a)

def Store.createTasks [Storage] (s : Store) : List CreateTask → Bool × Store
  | [] => (true, s)
  | a :: rest => if (s.createTask a).1 then (s.createTask a).2.createTasks rest else s.createTask a

section Effects

variable [AsciiFold] [Storage] {s s' : Store}

omit [AsciiFold] in
theorem wp_createTaskOrRaise (a : CreateTask) (Q : Bool → Store → Prop) :
    wp (createTaskOrRaise a) Q s ↔ Q (s.createTask a).1 (s.createTask a).2 := by
  unfold createTaskOrRaise Store.createTask
  by_cases hname : Storage.takesName a.blobPath.name = true
  · by_cases htext : Storage.encodable (a.task 0).taskName = true
    · simp [hname, htext, wp_createTask]
    · simp only [hname, htext, Bool.not_true, Bool.false_eq_true, if_false, Bool.not_false,
        if_true, wp_bind, Server.wp_write, Server.wp_read, wp_pure]
      rfl
  · simp [hname]

omit [AsciiFold] in
theorem wp_createTasks (creates : List CreateTask) (Q : Bool → Store → Prop) :
    wp (createTasks creates) Q s ↔ Q (s.createTasks creates).1 (s.createTasks creates).2 := by
  induction creates generalizing s with
  | nil => exact wp_pure true Q s
  | cons a rest ih =>
    rw [createTasks, wp_bind, wp_createTaskOrRaise, Store.createTasks]
    cases hraise : (s.createTask a).1 with
    | true => simpa [hraise] using ih
    | false => simp [hraise]

/-- The state right after `create_job`. -/
def StartDraws.jobStore (draws : StartDraws) (s : Store) (checked : StartChecked)
    (planned : List PlannedTask) : Store :=
  s.putJob draws.jobId {
    jobToken := draws.jobToken, pid := checked.pid, name := checked.name, status := .queued,
    totalTasks := planned.length, createdAt := s.clock, updatedAt := s.clock,
    metadataJson := checked.metadataJson }

/-- The tasks that a request plans, in the state that the failover pass leaves. -/
structure StartRequest.Plans (limits : QuotaLimits) (r : StartRequest) (s : Store)
    (checked : StartChecked) (files : StartFiles) (s₁ : Store) (planned : List PlannedTask) :
    Prop where
  check : r.check limits s = .ok checked
  given : r.files = some files
  stale : Runs requeueStaleTasks s () s₁
  plan : ∃ available : AvailableNodes,
    available.nodes = s₁.healthyNodeIds none files.requiredRuntime ∧
    files.plan (fun nodeId ↦ (s₁.queue (.node nodeId)).length) available = .ok planned

omit [Storage] in
/-- A request plans one job. -/
theorem StartRequest.Plans.unique {limits : QuotaLimits} {r : StartRequest}
    {checked checked' : StartChecked} {files files' : StartFiles} {s₁ s₁' : Store}
    {planned planned' : List PlannedTask} (h : r.Plans limits s checked files s₁ planned)
    (h' : r.Plans limits s checked' files' s₁' planned') :
    checked' = checked ∧ files' = files ∧ s₁' = s₁ ∧ planned' = planned := by
  have hchecked := h.check.symm.trans h'.check
  have hfiles := h.given.symm.trans h'.given
  cases hchecked
  cases hfiles
  obtain ⟨-, rfl⟩ := h.stale.deterministic h'.stale
  obtain ⟨⟨nodes, hne⟩, hnodes, hplan⟩ := h.plan
  obtain ⟨⟨nodes', hne'⟩, hnodes', hplan'⟩ := h'.plan
  obtain rfl : nodes = nodes' := hnodes.trans hnodes'.symm
  rw [hplan] at hplan'
  cases hplan'
  exact ⟨rfl, rfl, rfl, rfl⟩

/-- What a request ends in. -/
inductive Started (limits : QuotaLimits) (r : StartRequest) (draws : StartDraws) (s : Store) :
    StartReply → Store → Prop
  | refused {reply : StartReply} : reply.job = none →
      (∀ checked files s₁ planned, ¬ r.Plans limits s checked files s₁ planned) →
      Started limits r draws s reply s
  | unplanned {reply : StartReply} {s₁ : Store} : reply.job = none →
      (∀ checked files s₁ planned, ¬ r.Plans limits s checked files s₁ planned) →
      Runs requeueStaleTasks s () s₁ → Started limits r draws s reply s₁
  | queued {checked files s₁ s₂ planned reply} : r.Plans limits s checked files s₁ planned →
      (draws.jobStore s₁ checked planned).createTasks
        (draws.creates files.runtime checked planned) = (true, s₂) →
      reply = .queued checked.pid draws.jobId draws.jobToken checked.name
        ((s₂.jobSummary draws.jobId).tasks.map (·.tid)) (s₂.jobSummary draws.jobId).counts
        (s₂.jobSummary draws.jobId).status →
      Started limits r draws s reply (s₂.refresh draws.jobId)
  | raised {checked files s₁ s₂ planned} : r.Plans limits s checked files s₁ planned →
      (draws.jobStore s₁ checked planned).createTasks
        (draws.creates files.runtime checked planned) = (false, s₂) →
      Started limits r draws s .serverError s₂

/-- A request ends, in one of the ways above. -/
theorem wp_start (limits : QuotaLimits) (r : StartRequest) (draws : StartDraws) :
    wp (start limits r draws) (fun reply s' ↦ Started limits r draws s reply s') s := by
  have hrefused : ∀ {reply}, r.check limits s = .error reply → reply.job = none := by
    intro reply h
    unfold StartRequest.check at h
    dsimp only at h
    repeat' split at h
    all_goals cases h <;> rfl
  unfold start
  rw [wp_bind, Server.wp_read]
  cases hcheck : r.check limits s with
  | error reply =>
    refine (wp_pure _ _ _).mpr (.refused (hrefused hcheck) fun checked files s₁ planned h ↦ ?_)
    have hok := hcheck.symm.trans h.check
    cases hok
  | ok checked =>
    cases hfiles : r.files with
    | none =>
      refine (wp_pure _ _ _).mpr (.refused rfl fun checked files s₁ planned h ↦ ?_)
      have hsome := hfiles.symm.trans h.given
      cases hsome
    | some files =>
      simp only [getAvailableNodes, wp_bind, wp_getHealthyNodeIds]
      obtain ⟨u, s₁, hstale, -⟩ := wp_requeueStaleTasks s
      refine ⟨u, s₁, hstale, ?_⟩
      -- a plan is a plan for the nodes of this state
      have hsame : ∀ {checked' files' s₁' planned}, r.Plans limits s checked' files' s₁' planned →
          ∃ available : AvailableNodes,
            available.nodes = s₁.healthyNodeIds none files.requiredRuntime ∧
            files.plan (fun nodeId ↦ (s₁.queue (.node nodeId)).length) available = .ok planned := by
        intro checked' files' s₁' planned h
        obtain ⟨-, rfl⟩ := hstale.deterministic h.stale
        have hfiles' := hfiles.symm.trans h.given
        cases hfiles'
        exact h.plan
      dsimp only
      by_cases hnone : s₁.healthyNodeIds none files.requiredRuntime = []
      · rw [dif_pos hnone]
        refine (wp_pure _ _ _).mpr (.unplanned rfl (fun checked' files' s₁' planned h ↦ ?_) hstale)
        obtain ⟨available, hnodes, -⟩ := hsame h
        exact available.nonempty (hnodes.trans hnone)
      · rw [dif_neg hnone, wp_bind, Server.wp_read]
        cases hplan : files.plan (fun nodeId ↦ (s₁.queue (.node nodeId)).length)
            ⟨s₁.healthyNodeIds none files.requiredRuntime, hnone⟩ with
        | error e =>
          have hno : ∀ checked' files' s₁' planned,
              ¬ r.Plans limits s checked' files' s₁' planned := by
            intro checked' files' s₁' planned h
            obtain ⟨⟨nodes, hne⟩, hnodes, hok⟩ := hsame h
            obtain rfl : nodes = s₁.healthyNodeIds none files.requiredRuntime := hnodes
            rw [hplan] at hok
            cases hok
          cases e with
          | valueError message => exact (wp_pure _ _ _).mpr (.unplanned rfl hno hstale)
          | overflowError => exact (wp_pure _ _ _).mpr (.unplanned rfl hno hstale)
        | ok planned =>
          have hplans : r.Plans limits s checked files s₁ planned :=
            ⟨hcheck, hfiles, hstale, ⟨_, hnone⟩, rfl, hplan⟩
          simp only [StartDraws.queuePlannedTasks, createJob, wp_bind, Server.wp_read,
            Server.wp_write, wp_pure, wp_createTasks]
          cases hcreated : (draws.jobStore s₁ checked planned).createTasks
              (draws.creates files.runtime checked planned) with
          | mk created s₂ =>
            have hstore : (s₁.putJob (draws.job checked planned).jobId {
                jobToken := (draws.job checked planned).jobToken
                pid := (draws.job checked planned).pid
                name := (draws.job checked planned).name, status := .queued
                totalTasks := (draws.job checked planned).totalTasks
                createdAt := s₁.clock, updatedAt := s₁.clock
                metadataJson := (draws.job checked planned).metadataJson }) =
                draws.jobStore s₁ checked planned := rfl
            rw [hstore, hcreated]
            cases created with
            | true =>
              simp only [if_true, wp_bind, wp_refreshJobStatus, wp_pure]
              exact .queued hplans hcreated rfl
            | false =>
              simp only [Bool.false_eq_true, if_false, wp_pure]
              exact .raised hplans hcreated

end Effects

end TandemAio
