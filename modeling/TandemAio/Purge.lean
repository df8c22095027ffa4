import TandemAio.Run

/-!
# `get_job_results` and `scripts/purge_orphans.py`

The reader and the cleaner of result files, and the runs in which the steps of both come between
the requests of the server.
-/

open Reasoning Reasoning.Prog

namespace TandemAio

/-! ## The reader -/

/-- `read_bytes` -/
def readBytes : Option Path → Server (Option Blob)
  | none => return none
  | some path => Server.read (·.file path) fun _ ↦ []

/-- An item of `get_job_results`.  `result_b64` is what it decodes to. -/
structure ResultItem where
  summary : TaskSummary
  resultB64 : Option Blob
deriving DecidableEq

/-- One turn of the loop of `get_job_results`. -/
def resultItem (tid : Tid) : Server (Option ResultItem) := do
  match ← Server.getTask tid with
  | none => return none
  | some task =>
    let item := taskSummary task tid
    if item.status = .completed then
      let resultBytes ← readBytes task.resultPath
      return some ⟨item, some (resultBytes.getD (.bytes []))⟩
    else if task.error ≠ "" then return some ⟨{ item with error := some task.error }, none⟩
    else return some ⟨item, none⟩

/-- `get_job_results` -/
def getJobResults (jobId : JobId) : Server (List ResultItem) := do
  let taskIds ← Server.getJobTaskIds jobId
  collect taskIds resultItem

/-! ## The cleaner -/

/-- `_blob_suffix` -/
def blobSuffix (filename : String) : String :=
  let name := (filename.toList.reverse.takeWhile (· ≠ '/')).reverse
  let suffix := (name.reverse.takeWhile (· ≠ '.')).reverse
  let before := name.length - (suffix.length + 1)
  -- a leading or a trailing dot starts no suffix
  if 0 < before ∧ 0 < suffix.length then strStrip (String.ofList ('.' :: suffix)) else ".bin"

/-- The last component of `task_blob_path` and `result_blob_path`. -/
def Path.name : Path → String
  | .task _ tid filename => tid.text ++ blobSuffix filename
  | .result _ tid => tid.text ++ ".bin"

/-- `name.split(".")[0]` -/
def beforeDot (name : String) : String := String.ofList (name.toList.takeWhile (· ≠ '.'))

/-- `get_task` of a text that may be no task id. -/
def getTaskNamed (text : String) : Server (Option Task) :=
  if h : text ≠ "" ∧ text.toList.all idChar = true then Server.getTask ⟨text, h⟩ else return none

/-- The `should_delete` of `purge`. -/
def shouldDelete (task : Option Task) (now retentionSeconds : Time) : Bool :=
  match task with
  | none => true
  | some task => task.status.finished && decide (retentionSeconds < now - task.updatedAt)

/-- The arguments of `purge`, the time at which it was started and a file that it comes to. -/
structure Visit where
  execute : Bool
  retentionSeconds : Time
  now : Time
  filepath : Path

/-- One turn of the loop of `purge`. -/
def purgeFile (v : Visit) : Server Unit := do
  let task ← getTaskNamed (beforeDot v.filepath.name)
  if v.execute && shouldDelete task v.now v.retentionSeconds then
    Server.write (·.dropFile v.filepath) []
  else return ()

/-- `purge`, on the files that it finds under the storage root. -/
def purge (execute : Bool) (retentionSeconds : Time) (files : List Path) : Server Unit := do
  let now ← Server.time
  forEach files fun filepath ↦ purgeFile ⟨execute, retentionSeconds, now, filepath⟩

/-! ## Runs -/

inductive QueueEvent
  | request (e : Entry)
  | visit (v : Visit)

/-- The requests among the events. -/
def requestsOf (tr : List QueueEvent) : List Entry :=
  tr.filterMap fun
    | .request e => some e
    | .visit _ => none

/-- A request, or a turn of the loop of a run of the purge script. -/
inductive PurgeStep [Sha256] (tr : List QueueEvent) : QueueEvent → Store → Store → Prop
  | request {s a r s'} : Fresh (requestsOf tr) a → Runs (handle a) s r s' →
      PurgeStep tr (.request ⟨s, a, r, s'⟩) s s'
  | visit {s v s'} : Runs (purgeFile v) s () s' → PurgeStep tr (.visit v) s s'

/-- A run of requests and of any number of executions of the purge script, started at any times,
and the state it ends in. -/
inductive PurgeRun [Sha256] : List QueueEvent → Store → Prop
  | start (deployment userApi nodeRegistrationToken) :
      PurgeRun [] (Store.initial deployment userApi nodeRegistrationToken)
  | step {tr ev s s'} : PurgeRun tr s → PurgeStep tr ev s s' → PurgeRun (tr ++ [ev]) s'

theorem requestsOf_append (tr tr' : List QueueEvent) :
    requestsOf (tr ++ tr') = requestsOf tr ++ requestsOf tr' := List.filterMap_append

theorem requestsOf_map (tr : List Entry) : requestsOf (tr.map .request) = tr := by
  unfold requestsOf
  rw [List.filterMap_map]
  exact List.filterMap_some

theorem Run.purgeRun [Sha256] {tr : List Entry} {s : Store} (h : Run tr s) :
    PurgeRun (tr.map .request) s := by
  induction h with
  | start => exact .start _ _ _
  | step _ hf hs ih =>
    rw [List.map_append]
    refine ih.step (.request ?_ hs)
    rw [requestsOf_map]
    exact hf

end TandemAio
