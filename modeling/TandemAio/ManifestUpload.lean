import TandemAio.Reasoning.PythonValues
import TandemAio.LoadBalance
import TandemAio.Startable

/-!
# `app/blueprints/start.py`: the uploaded manifest

`_read_manifest_upload` and `_plan_wasm_tasks` on the bytes of an uploaded manifest, whatever is in
it.
-/

open Reasoning

namespace TandemAio

/-- An exception of `_read_manifest_upload` or `_plan_wasm_tasks`. -/
inductive Raised
  | valueError (message : PyStr)
  /-- A `UnicodeDecodeError`, which is a `ValueError`. -/
  | unicodeDecodeError
  | attributeError
  | overflowError
  | recursionError
deriving DecidableEq

/-- `isinstance(exc, ValueError)` -/
def Raised.isValueError : Raised → Bool
  | .valueError _ | .unicodeDecodeError => true
  | .attributeError | .overflowError | .recursionError => false

abbrev Raises := Except Raised

/-- `raise ValueError(message)` -/
def raiseValueError {α : Type} (message : PyStr) : Raises α := .error (.valueError message)

/-! ## Reading -/

/-- A manifest that `_read_manifest_upload` returns. -/
structure JsonManifest where
  fields : JsonFields
  tasks : List JsonValue
  tasks_eq : getField fields "tasks" = .list tasks
  tasks_ne : tasks ≠ []

/-- What `json.loads` raises, with `JSONDecodeError` as it is raised again. -/
def loadsRaises : JsonError → Raised
  | .decodeError msg => .valueError (points ("Manifest file was not valid JSON: " ++ msg))
  | .unicodeDecodeError => .unicodeDecodeError
  | .intDigits digits => .valueError (points
      ("Exceeds the limit (4300 digits) for integer string conversion: value has " ++
        toString digits ++ " digits; use sys.set_int_max_str_digits() to increase the limit"))
  -- a decoder that has not finished does not occur
  | .recursionError | .outOfFuel => .recursionError

/-- `_read_manifest_upload`, where documents may be nested `depth` deep. -/
def readManifestUpload (depth : Nat) (rawManifest : List UInt8) : Raises JsonManifest :=
  if rawManifest = [] then raiseValueError (points "Manifest file was empty")
  else
    match jsonLoads depth rawManifest with
    | .error e => .error (loadsRaises e)
    | .ok (.dict fields) =>
      match h : getField fields "tasks" with
      | .list (task :: tasks) => .ok ⟨fields, task :: tasks, h, List.cons_ne_nil _ _⟩
      | _ => raiseValueError (points "Manifest did not include any tasks")
    -- `manifest.get` of a value that is no `dict`
    | .ok _ => .error .attributeError

/-! ## Entries -/

/-- `Path(s).name`, of any string. -/
def pathNamePoints (s : PyStr) : PyStr :=
  ((s.splitOnP (· == charPoint '/')).filter fun part ↦
    part ≠ [] ∧ part ≠ [charPoint '.']).getLast?.getD []

/-- `secure_filename`, of any string.  A surrogate is dropped with all that is not ASCII. -/
def secureFilenamePoints [AsciiFold] (s : PyStr) : String :=
  secureFilename (String.ofList (chars s))

/-- `s.lower()`, of the ASCII letters. -/
def lowerPoints (s : PyStr) : PyStr :=
  s.map fun c ↦ if charPoint 'A' ≤ c ∧ c ≤ charPoint 'Z' then c + 32 else c

section Planner

variable [PythonText]

/-- `str(fields.get(key) or "").strip()` -/
def textField (fields : JsonFields) (key : String) : PyStr :=
  let value := getField fields key
  PyStr.strip (if value.truthy then value.toStr else [])

/-- `_coerce_non_negative_int` -/
def coerceValue (value : JsonValue) : Raises (Option Nat) :=
  match value.toInt with
  | .error .invalid => .ok none
  | .error .overflowError => .error .overflowError
  | .ok parsed => .ok (if parsed < 0 then none else some parsed.toNat)

/-- The `raw_cap` of a split hint. -/
def rawCap (splitHint : JsonFields) : JsonValue :=
  match getField splitHint "chunk" with
  | .null => getField splitHint "max_shards"
  | cap => cap

/-- `_planned_wasm_shards`, for `nodes` nodes. -/
def plannedShards (taskEntry : JsonFields) (nodes : Nat) : Raises Nat :=
  match getField taskEntry "split" with
  | .dict splitHint =>
    if lowerPoints (textField splitHint "strategy") ≠ points "data_parallel" then .ok 1
    else do
      let cap ← coerceValue (rawCap splitHint)
      -- `.. or 1`
      let shardCap := (cap.filter (· ≠ 0)).getD 1
      if shardCap < 2 ∨ nodes < 2 then return 1 else return min nodes shardCap
  | _ => .ok 1

/-- A planned task, with the runtime `wasm`.  Its name is any string. -/
structure WasmTask where
  filename : String
  payload : List UInt8
  assignedNode : NodeId
  taskName : PyStr
  timeoutMs : Option Nat
  /-- `shard_index` and `shard_total`, for a task of more than one shard. -/
  shard : Option (Nat × Nat)
deriving DecidableEq

/-- The shards of one entry, from `shardIndex` on. -/
def wasmShards (queued : NodeId → Nat) (available : AvailableNodes) (task : NodeId → WasmTask)
    (shardTotal : Nat) (shardIndex : Nat) : Nat → NodeLoad → List WasmTask × NodeLoad
  | 0, load => ([], load)
  | left + 1, load =>
    let (node, load) := selectLeastLoadedNode queued available load
    let shard := if 1 < shardTotal then some (shardIndex, shardTotal) else none
    let (rest, load) := wasmShards queued available task shardTotal (shardIndex + 1) left load
    ({ task node with shard := shard } :: rest, load)

/-- A name as the messages show it. -/
def quotedPoints (name : PyStr) : PyStr := charPoint '`' :: name ++ [charPoint '`']

/-! ## The plan -/

variable [AsciiFold]

/-- The key that the wasm path of an entry is uploaded under. -/
def entryUploadName (rawEntry : JsonFields) : String :=
  secureFilenamePoints (pathNamePoints (textField rawEntry "wasm"))

/-- The checks of an entry: its payload. -/
def entryPayload (uploads : List (String × List UInt8)) (rawEntry : JsonFields) :
    Raises (List UInt8) :=
  let taskName := textField rawEntry "name"
  let wasmPath := textField rawEntry "wasm"
  if taskName = [] ∨ wasmPath = [] then
    raiseValueError (points "Each manifest task needs both `name` and `wasm`")
  else if entryUploadName rawEntry = "" then
    raiseValueError (points "Manifest task " ++ quotedPoints taskName ++
      points " had an invalid wasm path")
  else
    match uploads.lookup (entryUploadName rawEntry) with
    | none => raiseValueError (points "Manifest task " ++ quotedPoints taskName ++
        points (" expected upload " ++ quoted (entryUploadName rawEntry) ++ ", but it was missing"))
    | some payload => .ok payload

/-- The loop of `_plan_wasm_tasks`: the planned tasks and the used uploads. -/
def planRawEntries (queued : NodeId → Nat) (available : AvailableNodes)
    (uploads : List (String × List UInt8)) :
    List JsonValue → NodeLoad → Raises (List WasmTask × List String)
  | [], _ => .ok ([], [])
  | .dict rawEntry :: rest, load => do
    let payload ← entryPayload uploads rawEntry
    let shardTotal ← plannedShards rawEntry available.nodes.length
    let timeoutMs ← coerceValue (getField rawEntry "timeout_ms")
    let task := fun node ↦
      ⟨entryUploadName rawEntry, payload, node, textField rawEntry "name", timeoutMs, none⟩
    let (planned, load) := wasmShards queued available task shardTotal 0 shardTotal load
    let (more, used) ← planRawEntries queued available uploads rest load
    return (planned ++ more, entryUploadName rawEntry :: used)
  | _ :: _, _ => raiseValueError (points "Manifest task entries must be JSON objects")

/-- What `_collect_wasm_uploads` raises. -/
def planRaises : PlanError → Raised
  | .valueError message => .valueError (points message)
  | .overflowError => .overflowError

/-- `_plan_wasm_tasks` -/
def planWasmManifest (queued : NodeId → Nat) (available : AvailableNodes)
    (manifest : JsonManifest) (wasmFiles : List Upload) : Raises (List WasmTask) := do
  let uploads ← (collectWasmUploads wasmFiles).mapError planRaises
  let (planned, used) ← planRawEntries queued available uploads manifest.tasks fun _ ↦ 0
  let unused := ((uploads.map Prod.fst).filter (· ∉ used)).insertionSort (· ≤ ·)
  if unused ≠ [] then
    raiseValueError (points ("Uploaded wasm files were not referenced by the manifest: " ++
      ", ".intercalate unused))
  else if planned = [] then
    raiseValueError (points "Manifest did not produce any runnable wasm tasks")
  else
    return planned

/-- The planning of `start`, for an uploaded manifest. -/
def planUpload (queued : NodeId → Nat) (available : AvailableNodes) (depth : Nat)
    (rawManifest : List UInt8) (wasmFiles : List Upload) : Raises (List WasmTask) := do
  let manifest ← readManifestUpload depth rawManifest
  planWasmManifest queued available manifest wasmFiles

end Planner

/-! ## Options -/

section Options

variable [PythonText]

/-- The number that a value stands for, if it is a non-negative integer for `int`. -/
def count (value : JsonValue) : Option Nat :=
  match value.toInt with
  | .ok n => if n < 0 then none else some n.toNat
  | .error _ => none

/-- An infinite float, which `int` does not take. -/
def Infinite (value : JsonValue) : Prop := ∃ negative, value = .float (.infinity negative)

theorem toInt_overflow {value : JsonValue} :
    value.toInt = .error .overflowError ↔ Infinite value := by
  constructor
  · intro h
    unfold JsonValue.toInt at h
    split at h
    all_goals try cases h
    · exact ⟨_, rfl⟩
    · split at h
      · cases h
      · cases h
  · rintro ⟨negative, rfl⟩
    rfl

theorem coerceValue_infinite {value : JsonValue} (h : Infinite value) :
    coerceValue value = .error .overflowError := by
  unfold coerceValue
  rw [toInt_overflow.mpr h]

theorem coerceValue_finite {value : JsonValue} (h : ¬Infinite value) :
    coerceValue value = .ok (count value) := by
  unfold coerceValue count
  rw [← toInt_overflow] at h
  cases hint : value.toInt with
  | ok n => rfl
  | error e =>
    cases e with
    | invalid => rfl
    | overflowError => exact absurd hint h

/-- The hint that an entry is split over the data. -/
def DataParallel (taskEntry splitHint : JsonFields) : Prop :=
  getField taskEntry "split" = .dict splitHint ∧
    lowerPoints (textField splitHint "strategy") = points "data_parallel"

/-- The cap of a `data_parallel` entry. -/
def splitCap (taskEntry : JsonFields) : Option Nat :=
  match getField taskEntry "split" with
  | .dict splitHint =>
    if lowerPoints (textField splitHint "strategy") = points "data_parallel" then
      count (rawCap splitHint)
    else none
  | _ => none

/-- How many tasks an entry is fanned out to. -/
def shardCount (taskEntry : JsonFields) (nodes : Nat) : Nat :=
  match splitCap taskEntry with
  | none => 1
  | some cap => if 2 ≤ cap ∧ 2 ≤ nodes then min nodes cap else 1

theorem shardCount_pos (taskEntry : JsonFields) (nodes : Nat) : 0 < shardCount taskEntry nodes := by
  unfold shardCount
  split
  · exact Nat.one_pos
  · split
    · omega
    · exact Nat.one_pos

/-- The options of an entry that the planner converts. -/
structure FiniteOptions (taskEntry : JsonFields) : Prop where
  timeout : ¬Infinite (getField taskEntry "timeout_ms")
  cap : ∀ splitHint, DataParallel taskEntry splitHint → ¬Infinite (rawCap splitHint)

theorem plannedShards_of_not {taskEntry : JsonFields} (nodes : Nat)
    (h : ∀ splitHint, ¬DataParallel taskEntry splitHint) :
    plannedShards taskEntry nodes = .ok 1 ∧ shardCount taskEntry nodes = 1 := by
  unfold plannedShards shardCount splitCap
  cases hsplit : getField taskEntry "split" with
  | dict splitHint =>
    have hstrategy := fun hs ↦ h splitHint ⟨hsplit, hs⟩
    dsimp only
    rw [if_pos hstrategy, if_neg hstrategy]
    exact ⟨rfl, rfl⟩
  | _ => exact ⟨rfl, rfl⟩

theorem plannedShards_dataParallel {taskEntry splitHint : JsonFields} (nodes : Nat)
    (h : DataParallel taskEntry splitHint) :
    plannedShards taskEntry nodes =
      (coerceValue (rawCap splitHint)).map fun _ ↦ shardCount taskEntry nodes := by
  unfold plannedShards shardCount splitCap
  rw [h.1]
  dsimp only
  rw [if_neg (not_not.mpr h.2), if_pos h.2]
  by_cases hinf : Infinite (rawCap splitHint)
  · rw [coerceValue_infinite hinf]
    rfl
  · rw [coerceValue_finite hinf]
    dsimp only [bind, Except.bind, Except.map]
    cases count (rawCap splitHint) with
    | none => rfl
    | some cap =>
      -- a cap of zero is no cap
      have hvalue : ((some cap).filter (· ≠ 0)).getD 1 = if cap = 0 then 1 else cap := by
        cases cap with
        | zero => rfl
        | succ n => rfl
      dsimp only
      rw [hvalue]
      by_cases hmany : 2 ≤ cap ∧ 2 ≤ nodes
      · rw [if_neg (show ¬cap = 0 by omega), if_neg (show ¬(cap < 2 ∨ nodes < 2) by omega),
          if_pos hmany]
        rfl
      · rw [if_neg hmany, if_pos (by split <;> omega)]
        rfl

theorem plannedShards_finite {taskEntry : JsonFields} (nodes : Nat)
    (h : ∀ splitHint, DataParallel taskEntry splitHint → ¬Infinite (rawCap splitHint)) :
    plannedShards taskEntry nodes = .ok (shardCount taskEntry nodes) := by
  by_cases hdata : ∃ splitHint, DataParallel taskEntry splitHint
  · obtain ⟨splitHint, hdata⟩ := hdata
    rw [plannedShards_dataParallel nodes hdata, coerceValue_finite (h splitHint hdata)]
    rfl
  · obtain ⟨hplanned, hcount⟩ := plannedShards_of_not nodes (not_exists.mp hdata)
    rw [hplanned, hcount]

theorem plannedShards_infinite {taskEntry splitHint : JsonFields} (nodes : Nat)
    (hdata : DataParallel taskEntry splitHint) (hinf : Infinite (rawCap splitHint)) :
    plannedShards taskEntry nodes = .error .overflowError := by
  rw [plannedShards_dataParallel nodes hdata, coerceValue_infinite hinf]
  rfl

/-- The options of an entry are converted exactly when they are finite. -/
theorem options_cases (taskEntry : JsonFields) (nodes : Nat) :
    (FiniteOptions taskEntry ∧
      plannedShards taskEntry nodes = .ok (shardCount taskEntry nodes) ∧
      coerceValue (getField taskEntry "timeout_ms") =
        .ok (count (getField taskEntry "timeout_ms"))) ∨
    (¬FiniteOptions taskEntry ∧ ∀ (α : Type) (f : Nat → Option Nat → Raises α),
      (do
        let shardTotal ← plannedShards taskEntry nodes
        let timeoutMs ← coerceValue (getField taskEntry "timeout_ms")
        f shardTotal timeoutMs) = .error .overflowError) := by
  by_cases hcap : ∀ splitHint, DataParallel taskEntry splitHint → ¬Infinite (rawCap splitHint)
  · have hshards := plannedShards_finite nodes hcap
    by_cases htimeout : Infinite (getField taskEntry "timeout_ms")
    · right
      refine ⟨fun h ↦ h.timeout htimeout, ?_⟩
      intro α f
      rw [hshards, coerceValue_infinite htimeout]
      rfl
    · left
      exact ⟨⟨htimeout, hcap⟩, hshards, coerceValue_finite htimeout⟩
  · right
    refine ⟨fun h ↦ hcap h.cap, ?_⟩
    intro α f
    push Not at hcap
    obtain ⟨splitHint, hdata, hinf⟩ := hcap
    rw [plannedShards_infinite nodes hdata hinf]
    rfl

end Options

/-! ## Uploads -/

section Uploads

variable [AsciiFold] {files : List Upload}

/-- The uploads that `_collect_wasm_uploads` takes. -/
structure UploadsAccepted (files : List Upload) : Prop where
  some : files ≠ []
  usable : ∀ file ∈ files, file.key ≠ "" ∧ ".wasm".toList <:+ file.key.toList
  distinct : (files.map Upload.key).Nodup
  nonempty : ∀ file ∈ files, file.payload ≠ []

/-- The uploads by their keys. -/
def uploaded (files : List Upload) : List (String × List UInt8) :=
  files.map fun file ↦ (file.key, file.payload)

theorem collectFrom_error {uploads : List (String × List UInt8)} {e : PlanError}
    (h : collectFrom uploads files = .error e) : ∃ message, e = .valueError message := by
  induction files generalizing uploads with
  | nil => cases h
  | cons file rest ih =>
    unfold collectFrom at h
    dsimp only at h
    split at h
    · exact ⟨_, (Except.error.inj h).symm⟩
    · split at h
      · exact ⟨_, (Except.error.inj h).symm⟩
      · split at h
        · exact ⟨_, (Except.error.inj h).symm⟩
        · split at h
          · exact ⟨_, (Except.error.inj h).symm⟩
          · exact ih h

theorem collectWasmUploads_cases (files : List Upload) :
    (UploadsAccepted files ∧ collectWasmUploads files = .ok (uploaded files)) ∨
    (¬UploadsAccepted files ∧
      ∃ message, collectWasmUploads files = .error (.valueError message)) := by
  cases hcollect : collectWasmUploads files with
  | ok uploads =>
    left
    obtain ⟨hne, hall, hnodup, rfl⟩ := collectWasmUploads_ok.mp hcollect
    refine ⟨⟨hne, ?_, hnodup, fun file hfile ↦ (hall file hfile).2⟩, rfl⟩
    intro file hfile
    refine ⟨?_, (hall file hfile).1⟩
    intro hempty
    have hsuffix := (hall file hfile).1
    rw [hempty] at hsuffix
    revert hsuffix
    decide
  | error e =>
    right
    constructor
    · intro h
      have hok : collectWasmUploads files = .ok (uploaded files) :=
        collectWasmUploads_ok.mpr ⟨h.some, fun file hfile ↦
          ⟨(h.usable file hfile).2, h.nonempty file hfile⟩, h.distinct, rfl⟩
      rw [hok] at hcollect
      cases hcollect
    · unfold collectWasmUploads at hcollect
      split at hcollect
      · exact ⟨_, hcollect.symm⟩
      · obtain ⟨message, rfl⟩ := collectFrom_error hcollect
        exact ⟨message, rfl⟩

theorem uploaded_keys (files : List Upload) :
    (uploaded files).map Prod.fst = files.map Upload.key := by
  unfold uploaded
  rw [List.map_map]
  rfl

theorem lookup_uploaded (h : (files.map Upload.key).Nodup) {key : String} {payload : List UInt8} :
    (uploaded files).lookup key = some payload ↔
      ∃ file ∈ files, file.key = key ∧ file.payload = payload := by
  constructor
  · intro hlookup
    obtain ⟨before, after, hsplit, -⟩ := List.lookup_eq_some_iff.mp hlookup
    have hmem : (key, payload) ∈ uploaded files := by simp [hsplit]
    obtain ⟨file, hfile, heq⟩ := List.mem_map.mp hmem
    exact ⟨file, hfile, (Prod.mk.inj heq).1, (Prod.mk.inj heq).2⟩
  · rintro ⟨file, hfile, rfl, rfl⟩
    exact lookup_map_of_nodup Upload.payload h hfile

end Uploads

end TandemAio
