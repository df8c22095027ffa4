import Mathlib.Data.Rat.Defs
import TandemAio.Startable

/-!
# The two manifest builders

`compute.py`, `split.py` and `builder.py` of the SDK next to `discovery.py` and the CLI's
`manifest.py`: what the decorators leave on a task, what each builder writes about it, and what
the server plans from either.
-/

namespace TandemAio

/-- A number that a decorator was given. -/
inductive PyNumber
  | finite (value : ℚ)
  | infinity
  | negInfinity
  | nan
deriving DecidableEq

/-- `int(x)` -/
def PyNumber.toInt : PyNumber → OptionValue
  | .finite value => .int (value.num.tdiv value.den)
  | .infinity | .negInfinity => .infinite
  | .nan => .unparsable

/-- `x > 1` -/
def PyNumber.aboveOne : PyNumber → Bool
  | .finite value => 1 < value
  | .infinity => true
  | .negInfinity | .nan => false

/-- `max(1, chunk)` -/
def chunkSize (chunk : PyNumber) : PyNumber := if chunk.aboveOne then chunk else .finite 1

/-- A `timeout_ms`, by what the builders and the server ask of it: `int(x)` and `bool(x)`.  What
is false is `0`, or no number. -/
structure TimeoutArg where
  value : OptionValue
  truthy : Bool
  falsy : truthy = false → value = .int 0 ∨ value = .unparsable

/-- A function of the entry module with the wrappers around it.  `functools.wraps` copies every
attribute of what it wraps, so a wrapper keeps the marks of the wrappers below that it does not
set itself. -/
inductive TaskObject
  | function (module name qualname : String)
  | compute (timeoutMs : TimeoutArg) (func : TaskObject)
  | split (chunk : PyNumber) (runnable : TaskObject)

namespace TaskObject

/-- `__name__` -/
def name : TaskObject → String
  | .function _ name _ => name
  | .compute _ func => func.name
  | .split _ runnable => runnable.name

/-- `__module__` -/
def module : TaskObject → String
  | .function module _ _ => module
  | .compute _ func => func.module
  | .split _ runnable => runnable.module

/-- `__qualname__` -/
def qualname : TaskObject → String
  | .function _ _ qualname => qualname
  | .compute _ func => func.qualname
  | .split _ runnable => runnable.qualname

/-- `__tandem_timeout_ms__` -/
def timeoutMs : TaskObject → Option TimeoutArg
  | .function _ _ _ => none
  | .compute timeoutMs _ => some timeoutMs
  | .split _ runnable => runnable.timeoutMs

/-- `__tandem_chunk__` -/
def chunk : TaskObject → Option PyNumber
  | .function _ _ _ => none
  | .compute _ func => func.chunk
  | .split chunk _ => some (chunkSize chunk)

/-- `__tandem_original__`, or the object itself. -/
def original : TaskObject → TaskObject
  | .function module name qualname => .function module name qualname
  | .compute _ func => func
  | .split _ runnable => runnable

/-- The names that `submit` reads. -/
def submit : TaskObject → Option (String × String)
  | .function _ _ _ => none
  | .compute _ func => some (func.module, func.name)
  | .split _ runnable => runnable.submit

/-- `__tandem_kind__`, with the option that `_options_for` reads for this kind. -/
def kind : TaskObject → Option TaskKind
  | .function _ _ _ => none
  | .compute timeoutMs _ => some (.compute (some timeoutMs.value))
  | .split chunk _ => some (.split (some (chunkSize chunk).toInt))

end TaskObject

/-- A task of an entry module, bound to its own name. -/
structure ModuleTask where
  exportName : String
  object : TaskObject
  /-- What the CLI compiles from it. -/
  wasm : List UInt8
  kind : TaskKind
  marked : object.kind = some kind
  ownName : object.name = exportName
  identifier : IsIdentifier exportName

/-- The tasks in the namespace of an entry module. -/
structure EntryModule where
  tasks : List ModuleTask
  distinct : (tasks.map ModuleTask.exportName).Nodup

/-! ## The SDK -/

/-- `discover_tasks`: `dir(module)` is sorted. -/
def discoverTasks (module : EntryModule) : List (String × TaskObject) :=
  (module.tasks.insertionSort (Order.Preimage ModuleTask.exportName (· ≤ ·))).map fun task ↦
    (task.object.original.name, task.object.original)

/-- The entry of a task in `_build_manifest`, with the function that `func_map` has for it.  It
has no `qualname`. -/
def sdkEntry (taskName : String) (func : Option TaskObject) : ManifestEntry where
  name := taskName
  qualname := ""
  wasm := taskName ++ ".wasm"
  timeoutMs := ((func.bind TaskObject.timeoutMs).filter TimeoutArg.truthy).map TimeoutArg.value
  split := ((func.bind TaskObject.chunk).filter PyNumber.aboveOne).map fun chunk ↦
    ⟨"data_parallel", none, some chunk.toInt⟩

/-- `_build_manifest`, the tasks.  In `func_map` the last function of a name counts. -/
def sdkBuildManifest (results : List String) (tasks : List (String × TaskObject)) :
    List ManifestEntry :=
  results.map fun taskName ↦ sdkEntry taskName (tasks.reverse.lookup taskName)

/-- The manifest of `build_project` when every task was built. -/
def sdkManifest (module : EntryModule) : List ManifestEntry :=
  sdkBuildManifest ((discoverTasks module).map Prod.fst) (discoverTasks module)

/-! ## The CLI -/

/-- A task as `describe_target` finds it. -/
def ModuleTask.discovered (task : ModuleTask) : DiscoveredTask where
  exportName := task.exportName
  kind := task.kind
  qualname := task.object.original.qualname
  function := task.object.submit
  wasm := task.wasm

def cliManifest (module : EntryModule) : List ManifestEntry :=
  buildManifest (module.tasks.map ModuleTask.discovered)

/-! ## What a plan runs -/

/-- The task name, timeout and shard of a planned task. -/
def PlannedTask.unit (p : PlannedTask) : String × Option Nat × Option (Nat × Nat) :=
  (p.taskName, p.timeoutMs, p.shard)

/-- The units of a task with so many shards. -/
def shardUnits (taskName : String) (timeoutMs : Option Nat) (shardTotal : Nat) :
    List (String × Option Nat × Option (Nat × Nat)) :=
  (List.range shardTotal).map fun shardIndex ↦
    (taskName, timeoutMs, if 1 < shardTotal then some (shardIndex, shardTotal) else none)

/-- The units of an entry whose options are read without an exception. -/
def ManifestEntry.units (entry : ManifestEntry) (available : AvailableNodes) :
    List (String × Option Nat × Option (Nat × Nat)) :=
  match plannedWasmShards entry available, coerceNonNegativeInt entry.timeoutMs with
  | .ok shardTotal, .ok timeoutMs => shardUnits (strStrip entry.name) timeoutMs shardTotal
  | _, _ => []

/-- The multiset of units of a plan; `none` is a refusal. -/
def planUnits [AsciiFold] (queued : NodeId → Nat) (available : AvailableNodes)
    (manifest : List ManifestEntry) (files : List Upload) :
    Option (Multiset (String × Option Nat × Option (Nat × Nat))) :=
  (planWasmTasks queued available manifest files).toOption.map fun planned ↦
    (planned.map PlannedTask.unit : Multiset _)

section Units

variable {queued : NodeId → Nat} {available : AvailableNodes}

theorem planShards_units (queued : NodeId → Nat) (available : AvailableNodes)
    (task : NodeId → PlannedTask) {taskName : String} {timeoutMs : Option Nat}
    (htask : ∀ node, (task node).taskName = taskName ∧ (task node).timeoutMs = timeoutMs)
    (shardTotal shardIndex left : Nat) (load : NodeLoad) :
    (planShards queued available task shardTotal shardIndex left load).1.map PlannedTask.unit =
      (List.range' shardIndex left).map fun shardIndex ↦
        (taskName, timeoutMs, if 1 < shardTotal then some (shardIndex, shardTotal) else none) := by
  induction left generalizing shardIndex load with
  | zero => rfl
  | succ left ih =>
    unfold planShards
    rw [List.range'_succ, List.map_cons, List.map_cons, ih]
    obtain ⟨hname, htimeout⟩ := htask (selectLeastLoadedNode queued available load).1
    have hhead : PlannedTask.unit { task (selectLeastLoadedNode queued available load).1 with
        shard := if 1 < shardTotal then some (shardIndex, shardTotal) else none } =
          (taskName, timeoutMs,
            if 1 < shardTotal then some (shardIndex, shardTotal) else none) := by
      unfold PlannedTask.unit
      rw [hname, htimeout]
    rw [← hhead]

variable [AsciiFold] {uploads : List (String × List UInt8)}

/-- A plan runs the units of its entries. -/
theorem planEntries_units {entries : List ManifestEntry} {load : NodeLoad}
    {planned : List PlannedTask} {used : List String}
    (h : planEntries queued available uploads entries load = .ok (planned, used)) :
    planned.map PlannedTask.unit = entries.flatMap fun entry ↦ entry.units available := by
  induction entries generalizing load planned used with
  | nil =>
    cases h
    rfl
  | cons entry rest ih =>
    unfold planEntries at h
    dsimp only at h
    split at h
    · cases h
    · split at h
      · cases h
      · split at h
        · cases h
        · rename_i payload hlookup
          obtain ⟨shardTotal, hshards, h⟩ := Reasoning.except_bind_ok.mp h
          obtain ⟨timeoutMs, htimeout, h⟩ := Reasoning.except_bind_ok.mp h
          obtain ⟨⟨more, used'⟩, hrest, h⟩ := Reasoning.except_bind_ok.mp h
          cases h
          have hown : entry.units available =
              shardUnits (strStrip entry.name) timeoutMs shardTotal := by
            unfold ManifestEntry.units
            rw [hshards, htimeout]
          have hplanned := planShards_units queued available
            (fun node ↦ ⟨entry.uploadName, payload, node, strStrip entry.name, timeoutMs, none⟩)
            (fun _ ↦ ⟨rfl, rfl⟩) shardTotal 0 shardTotal load
          rw [← List.range_eq_range'] at hplanned
          rw [List.map_append, List.flatMap_cons, ih hrest, hown]
          exact congrArg (· ++ _) hplanned

/-- What the server asks of a manifest and its uploads. -/
structure Plannable (available : AvailableNodes) (manifest : List ManifestEntry)
    (files : List Upload) (uploads : List (String × List UInt8)) : Prop where
  collected : collectWasmUploads files = .ok uploads
  runnable : ∀ entry ∈ manifest, entry.Runnable uploads available
  used : ∀ upload ∈ uploads, upload.1 ∈ manifest.map ManifestEntry.uploadName
  nonempty : manifest ≠ []

theorem planUnits_of_plannable {manifest : List ManifestEntry} {files : List Upload}
    (h : Plannable available manifest files uploads) :
    planUnits queued available manifest files =
      some (manifest.flatMap fun entry ↦ entry.units available : Multiset _) := by
  obtain ⟨⟨planned, used⟩, hentries⟩ := planEntries_total queued (fun _ ↦ 0) h.runnable
  obtain ⟨hused, -, -, hall⟩ := planEntries_spec hentries
  have hplan : planWasmTasks queued available manifest files = .ok planned := by
    apply planWasmTasks_ok.mpr
    refine ⟨uploads, used, h.collected, hentries, ?_, ?_⟩
    · intro upload hupload
      rw [hused]
      exact h.used upload hupload
    · obtain ⟨entry, hentry⟩ := List.exists_mem_of_ne_nil _ h.nonempty
      obtain ⟨p, hp, -⟩ := hall entry hentry
      exact List.ne_nil_of_mem hp
  unfold planUnits
  rw [hplan]
  simp only [Except.toOption, Option.map_some, planEntries_units hentries]

/-- A manifest is planned only as far as it is plannable. -/
theorem plannable_of_planUnits {manifest : List ManifestEntry} {files : List Upload}
    (h : planUnits queued available manifest files ≠ none) :
    ∃ uploads, Plannable available manifest files uploads := by
  unfold planUnits at h
  cases hplan : planWasmTasks queued available manifest files with
  | error e =>
    rw [hplan] at h
    exact absurd rfl h
  | ok planned =>
    obtain ⟨uploads, used, hcollected, hentries, hall, hne⟩ := planWasmTasks_ok.mp hplan
    obtain ⟨hused, hrunnable, hof, -⟩ := planEntries_spec hentries
    refine ⟨uploads, hcollected, hrunnable, ?_, ?_⟩
    · rw [← hused]
      exact hall
    · rintro rfl
      obtain ⟨p, hp⟩ := List.exists_mem_of_ne_nil _ hne
      obtain ⟨e, he, -⟩ := hof p hp
      cases he

end Units

/-! ## What each builder says about a task -/

/-- The options that a builder writes: the timeout, and how many shards at most. -/
structure Reading where
  timeoutMs : Option OptionValue
  cap : Option OptionValue

/-- The SDK reads the function under the outermost wrapper. -/
def ModuleTask.sdkReading (task : ModuleTask) : Reading where
  timeoutMs := (task.object.original.timeoutMs.filter TimeoutArg.truthy).map TimeoutArg.value
  cap := (task.object.original.chunk.filter PyNumber.aboveOne).map PyNumber.toInt

/-- The CLI reads the outermost wrapper. -/
def ModuleTask.cliReading (task : ModuleTask) : Reading :=
  match task.kind with
  | .compute timeoutMs => ⟨timeoutMs, none⟩
  | .split chunk => ⟨none, chunk⟩

namespace Reading

/-- The number that an option stands for. -/
def count : Option OptionValue → Option Nat
  | some (.int value) => if value < 0 then none else some value.toNat
  | _ => none

/-- Options that `int()` does not choke on. -/
structure Finite (r : Reading) : Prop where
  timeoutMs : r.timeoutMs ≠ some .infinite
  cap : r.cap ≠ some .infinite

/-- The shards of a task for so many nodes. -/
def shards (r : Reading) (nodes : Nat) : Nat :=
  match count r.cap with
  | some cap => if cap < 2 ∨ nodes < 2 then 1 else min nodes cap
  | none => 1

/-- Two readings ask for the same work. -/
structure Alike (nodes : Nat) (r r' : Reading) : Prop where
  finite : r.Finite
  finite' : r'.Finite
  timeoutMs : count r.timeoutMs = count r'.timeoutMs
  shards : r.shards nodes = r'.shards nodes

theorem shards_pos (r : Reading) (nodes : Nat) : 0 < r.shards nodes := by
  unfold shards
  split
  · split
    · decide
    · rename_i hmany
      omega
  · decide

theorem coerce_count {value : Option OptionValue} (h : value ≠ some .infinite) :
    coerceNonNegativeInt value = .ok (count value) := by
  match value with
  | none | some .unparsable | some (.int _) => rfl
  | some .infinite => exact absurd rfl h

end Reading

/-- The uploads are those of the tasks with these names. -/
structure UploadsFit [AsciiFold] (files : List Upload) (names : List String) : Prop where
  nonempty : files ≠ []
  usable : ∀ file ∈ files, ".wasm".toList <:+ file.key.toList ∧ file.payload ≠ []
  distinct : (files.map Upload.key).Nodup
  complete : ∀ name ∈ names, secureFilename (name ++ ".wasm") ∈ files.map Upload.key
  used : ∀ file ∈ files, file.key ∈ names.map fun name ↦ secureFilename (name ++ ".wasm")

/-- An entry that says of a task what a builder reads. -/
structure ManifestEntry.Says [AsciiFold] (entry : ManifestEntry) (task : ModuleTask)
    (r : Reading) : Prop where
  name : strStrip entry.name = task.exportName
  path : strStrip entry.wasm ≠ ""
  upload : entry.uploadName = secureFilename (task.exportName ++ ".wasm")
  timeoutMs : entry.timeoutMs = r.timeoutMs
  split : entry.split = none ∧ r.cap = none ∨
    ∃ hint, entry.split = some hint ∧ hint.strategy = "data_parallel" ∧
      (hint.chunk <|> hint.maxShards) = r.cap

section Manifests

variable {module : EntryModule} {task : ModuleTask}

/-- The entry of the SDK's builder for a task. -/
def ModuleTask.sdkEntry (task : ModuleTask) : ManifestEntry :=
  TandemAio.sdkEntry task.exportName (some task.object.original)

theorem TaskObject.original_name (object : TaskObject) : object.original.name = object.name := by
  cases object <;> rfl

/-- `func_map` has the function of every task. -/
theorem sdkManifest_perm : (sdkManifest module).Perm (module.tasks.map ModuleTask.sdkEntry) := by
  let sorted := module.tasks.insertionSort (Order.Preimage ModuleTask.exportName (· ≤ ·))
  have hperm : sorted.Perm module.tasks := List.perm_insertionSort _ _
  have hfound : discoverTasks module =
      sorted.map fun task ↦ (task.exportName, task.object.original) := by
    apply List.map_congr_left
    intro task htask
    rw [task.object.original_name, task.ownName]
  have hnodup : (sorted.reverse.map ModuleTask.exportName).Nodup := by
    have hsame : (sorted.reverse.map ModuleTask.exportName).Perm
        (module.tasks.map ModuleTask.exportName) :=
      ((List.reverse_perm sorted).trans hperm).map _
    exact hsame.nodup_iff.mpr module.distinct
  have hentries : sdkManifest module = sorted.map ModuleTask.sdkEntry := by
    unfold sdkManifest sdkBuildManifest
    rw [hfound, List.map_map, List.map_map]
    apply List.map_congr_left
    intro task htask
    have hlookup := lookup_map_of_nodup (fun task : ModuleTask ↦ task.object.original) hnodup
      (List.mem_reverse.mpr htask)
    rw [List.map_reverse] at hlookup
    simp only [Function.comp, hlookup]
    rfl
  rw [hentries]
  exact hperm.map _

theorem cliManifest_perm :
    (cliManifest module).Perm (module.tasks.map fun task ↦ task.discovered.entry) := by
  unfold cliManifest buildManifest
  have hperm := (describeTarget_perm (module.tasks.map ModuleTask.discovered)).map
    DiscoveredTask.entry
  rwa [List.map_map] at hperm

theorem strStrip_wasm (h : IsIdentifier task.exportName) :
    strStrip (task.exportName ++ ".wasm") = task.exportName ++ ".wasm" := by
  apply strStrip_of_no_space
  intro c hc
  rw [String.toList_append, List.mem_append] at hc
  rcases hc with hc | hc
  · exact (identifierChar_props (h.2 c hc)).2.2
  · have hall : ".wasm".toList.all (fun c ↦ !isspace c) = true := by decide
    simpa using List.all_eq_true.mp hall c hc

end Manifests

section Builders

variable [AsciiFold] {queued : NodeId → Nat} {available : AvailableNodes}
variable {entry : ManifestEntry} {task : ModuleTask} {r : Reading}

theorem ManifestEntry.Says.shards (h : entry.Says task r) :
    plannedWasmShards entry available =
      (coerceNonNegativeInt r.cap).map fun _ ↦ r.shards available.nodes.length := by
  have hstrategy : lower (strStrip "data_parallel") = "data_parallel" := by decide
  rcases h.split with ⟨hsplit, hcap⟩ | ⟨hint, hsplit, hdata, hcap⟩
  · unfold plannedWasmShards Reading.shards
    rw [hsplit, hcap]
    rfl
  · unfold plannedWasmShards
    rw [hsplit]
    dsimp only
    rw [hdata, if_neg (not_not.mpr hstrategy), hcap]
    by_cases hfinite : r.cap = some .infinite
    · rw [hfinite]
      rfl
    · rw [Reading.coerce_count hfinite]
      unfold Reading.shards
      dsimp only [bind, Except.bind, Except.map]
      cases hcount : Reading.count r.cap with
      | none => rfl
      | some cap =>
        by_cases hzero : cap = 0
        · -- `.. or 1`
          subst hzero
          have hone : ((some 0).filter fun n : Nat ↦ decide (n ≠ 0)).getD 1 = 1 := by decide
          simp only [hone]
          rfl
        · simp only [ne_eq, hzero, not_false_eq_true, Option.filter_some_pos, Option.getD_some,
            decide_true]
          split <;> rfl

theorem ManifestEntry.Says.units (h : entry.Says task r) (hfinite : r.Finite) :
    entry.units available = shardUnits task.exportName (Reading.count r.timeoutMs)
      (r.shards available.nodes.length) := by
  unfold ManifestEntry.units
  rw [h.shards, h.timeoutMs, Reading.coerce_count hfinite.timeoutMs,
    Reading.coerce_count hfinite.cap, h.name]
  rfl

theorem ManifestEntry.Says.runnable (h : entry.Says task r)
    {uploads : List (String × List UInt8)} :
    entry.Runnable uploads available ↔ r.Finite ∧
      secureFilename (task.exportName ++ ".wasm") ≠ "" ∧
      ∃ payload, uploads.lookup (secureFilename (task.exportName ++ ".wasm")) = some payload := by
  have hshards : (∃ n, plannedWasmShards entry available = .ok n) ↔ r.cap ≠ some .infinite := by
    rw [h.shards, ← coerceNonNegativeInt_ok]
    cases coerceNonNegativeInt r.cap <;> simp [Except.map]
  constructor
  · intro hrun
    refine ⟨⟨?_, hshards.mp hrun.shards⟩, ?_, ?_⟩
    · rw [← h.timeoutMs]
      exact hrun.timeout
    · rw [← h.upload]
      exact hrun.upload
    · rw [← h.upload]
      exact hrun.uploaded
  · rintro ⟨hfinite, hupload, huploaded⟩
    rw [← h.upload] at hupload huploaded
    have hname : strStrip entry.name ≠ "" := by
      rw [h.name]
      exact task.identifier.1
    refine ⟨hname, h.path, hupload, huploaded, hshards.mpr hfinite.cap, ?_⟩
    rw [h.timeoutMs]
    exact hfinite.timeoutMs

theorem sdkEntry_says (task : ModuleTask) : task.sdkEntry.Says task task.sdkReading where
  name := task.identifier.strStrip_eq
  path := by
    apply strStrip_ne_empty
    exact ⟨'w', by simp [ModuleTask.sdkEntry, sdkEntry, String.toList_append], by decide⟩
  upload := by
    unfold ManifestEntry.uploadName ModuleTask.sdkEntry sdkEntry
    rw [strStrip_wasm task.identifier, task.identifier.pathName_wasm]
  timeoutMs := rfl
  split := by
    unfold ModuleTask.sdkEntry sdkEntry ModuleTask.sdkReading
    cases hchunk : task.object.original.chunk.filter PyNumber.aboveOne with
    | none =>
      left
      simp [hchunk]
    | some chunk =>
      right
      refine ⟨⟨"data_parallel", none, some chunk.toInt⟩, ?_, rfl, ?_⟩
      · simp [hchunk]
      · simp

theorem cliEntry_says (task : ModuleTask) : task.discovered.entry.Says task task.cliReading where
  name := task.identifier.strStrip_eq
  path := by
    apply strStrip_ne_empty
    exact ⟨'t', by simp [DiscoveredTask.entry, DiscoveredTask.wasmPath, String.toList_append],
      by decide⟩
  upload := entry_uploadName task.identifier
  timeoutMs := by
    unfold DiscoveredTask.entry ModuleTask.discovered ModuleTask.cliReading
    cases task.kind <;> rfl
  split := by
    unfold DiscoveredTask.entry ModuleTask.discovered ModuleTask.cliReading splitHint
    cases task.kind with
    | compute timeoutMs =>
      left
      exact ⟨rfl, rfl⟩
    | split chunk =>
      right
      refine ⟨⟨"data_parallel", chunk, none⟩, rfl, rfl, ?_⟩
      cases chunk <;> rfl

/-! ## Plans of the two manifests -/

/-- The uploads as the server collects them. -/
def collected (files : List Upload) : List (String × List UInt8) :=
  files.map fun file ↦ (file.key, file.payload)

/-- A manifest that says what a builder reads of every task is planned exactly when the uploads
fit the tasks and all options are finite. -/
theorem plannable_iff (available : AvailableNodes) (files : List Upload) {tasks : List ModuleTask}
    {manifest : List ManifestEntry}
    {entry : ModuleTask → ManifestEntry} {read : ModuleTask → Reading}
    (hmanifest : manifest.Perm (tasks.map entry))
    (hreads : ∀ task, (entry task).Says task (read task)) :
    (∃ uploads, Plannable available manifest files uploads) ↔
      UploadsFit files (tasks.map ModuleTask.exportName) ∧ ∀ task ∈ tasks, (read task).Finite := by
  have hentry : ∀ e ∈ manifest, ∃ task ∈ tasks, entry task = e :=
    fun e he ↦ List.mem_map.mp (hmanifest.mem_iff.mp he)
  have hmem : ∀ task ∈ tasks, entry task ∈ manifest :=
    fun task htask ↦ hmanifest.mem_iff.mpr (List.mem_map_of_mem htask)
  constructor
  · rintro ⟨uploads, h⟩
    obtain ⟨hne, husable, hdistinct, rfl⟩ := collectWasmUploads_ok.mp h.collected
    refine ⟨⟨hne, husable, hdistinct, ?_, ?_⟩, ?_⟩
    · intro name hname
      obtain ⟨task, htask, rfl⟩ := List.mem_map.mp hname
      obtain ⟨-, -, payload, hlookup⟩ := (hreads task).runnable.mp (h.runnable _ (hmem task htask))
      obtain ⟨before, after, hsplit, -⟩ := List.lookup_eq_some_iff.mp hlookup
      have hkeys : files.map Upload.key = before.map Prod.fst ++
          secureFilename (task.exportName ++ ".wasm") :: after.map Prod.fst := by
        have hfst := congrArg (List.map Prod.fst) hsplit
        rwa [List.map_map, List.map_append, List.map_cons] at hfst
      rw [hkeys]
      exact List.mem_append_right _ List.mem_cons_self
    · intro file hfile
      have hused := h.used _ (List.mem_map_of_mem hfile)
      obtain ⟨e, he, hkey⟩ := List.mem_map.mp hused
      obtain ⟨task, htask, rfl⟩ := hentry e he
      rw [(hreads task).upload] at hkey
      exact List.mem_map.mpr ⟨_, List.mem_map_of_mem htask, hkey⟩
    · intro task htask
      exact ((hreads task).runnable.mp (h.runnable _ (hmem task htask))).1
  · rintro ⟨hfit, hfinite⟩
    refine ⟨collected files, collectWasmUploads_ok.mpr
      ⟨hfit.nonempty, hfit.usable, hfit.distinct, rfl⟩, ?_, ?_, ?_⟩
    · intro e he
      obtain ⟨task, htask, rfl⟩ := hentry e he
      have hkey := hfit.complete _ (List.mem_map_of_mem htask)
      obtain ⟨file, hfile, hname⟩ := List.mem_map.mp hkey
      refine (hreads task).runnable.mpr ⟨hfinite task htask, ?_, ?_⟩
      · intro hempty
        have hsuffix := (hfit.usable file hfile).1
        rw [hname, hempty] at hsuffix
        revert hsuffix
        decide
      · have hlookup := lookup_map_of_nodup Upload.payload hfit.distinct hfile
        rw [hname] at hlookup
        exact ⟨_, hlookup⟩
    · intro upload hupload
      obtain ⟨file, hfile, rfl⟩ := List.mem_map.mp hupload
      obtain ⟨name, hname, hkey⟩ := List.mem_map.mp (hfit.used file hfile)
      obtain ⟨task, htask, rfl⟩ := List.mem_map.mp hname
      exact List.mem_map.mpr ⟨entry task, hmem task htask, (hreads task).upload.trans hkey⟩
    · obtain ⟨file, hfile⟩ := List.exists_mem_of_ne_nil _ hfit.nonempty
      obtain ⟨name, hname, -⟩ := List.mem_map.mp (hfit.used file hfile)
      obtain ⟨task, htask, -⟩ := List.mem_map.mp hname
      exact List.ne_nil_of_mem (hmem task htask)

/-- The units that a builder asks for. -/
def readingUnits (available : AvailableNodes) (read : ModuleTask → Reading) (task : ModuleTask) :
    List (String × Option Nat × Option (Nat × Nat)) :=
  shardUnits task.exportName (Reading.count (read task).timeoutMs)
    ((read task).shards available.nodes.length)

open Classical in
/-- What is planned from a manifest. -/
theorem planUnits_eq (queued : NodeId → Nat) {tasks : List ModuleTask}
    {manifest : List ManifestEntry}
    {entry : ModuleTask → ManifestEntry} {read : ModuleTask → Reading} {files : List Upload}
    (hmanifest : manifest.Perm (tasks.map entry))
    (hreads : ∀ task, (entry task).Says task (read task)) :
    planUnits queued available manifest files =
      if UploadsFit files (tasks.map ModuleTask.exportName) ∧ ∀ task ∈ tasks, (read task).Finite
      then some (tasks.flatMap (readingUnits available read) : Multiset _) else none := by
  have hiff := plannable_iff available files hmanifest hreads
  split
  · rename_i hok
    obtain ⟨uploads, hplannable⟩ := hiff.mpr hok
    have hunits : (manifest.flatMap fun e ↦ e.units available).Perm
        (tasks.flatMap (readingUnits available read)) := by
      have hflat := hmanifest.flatMap_right fun e ↦ e.units available
      rw [List.flatMap_map] at hflat
      have hsame : (tasks.flatMap fun task ↦ (entry task).units available) =
          tasks.flatMap (readingUnits available read) :=
        List.flatMap_congr fun task htask ↦ (hreads task).units (hok.2 task htask)
      rwa [hsame] at hflat
    rw [planUnits_of_plannable hplannable]
    exact congrArg some (Multiset.coe_eq_coe.mpr hunits)
  · rename_i hno
    by_contra hsome
    exact hno (hiff.mp (plannable_of_planUnits hsome))

end Builders

/-! ## Agreement -/

section Agreement

variable {available : AvailableNodes}

/-- A decorated function that nothing wrapped before has no marks for the SDK to read. -/
theorem sdkReading_function {task : ModuleTask} {module name qualname : String}
    (h : task.object.original = .function module name qualname) :
    task.sdkReading = ⟨none, none⟩ := by
  unfold ModuleTask.sdkReading
  rw [h]
  rfl

/-- On `@tandem.compute` the builders are alike when the timeout counts for nothing. -/
theorem alike_compute {task : ModuleTask} {timeoutMs : TimeoutArg} {nodes : Nat}
    {module name qualname : String}
    (h : task.object = .compute timeoutMs (.function module name qualname)) :
    task.sdkReading.Alike nodes task.cliReading ↔
      timeoutMs.value ≠ .infinite ∧ ∀ n, timeoutMs.value = .int n → n < 0 := by
  have hkind : task.kind = .compute (some timeoutMs.value) := by
    have hmarked := task.marked
    rw [h] at hmarked
    exact (Option.some.inj hmarked).symm
  have hsdk : task.sdkReading = ⟨none, none⟩ := by
    apply sdkReading_function
    rw [h]
    rfl
  have hcli : task.cliReading = ⟨some timeoutMs.value, none⟩ := by
    unfold ModuleTask.cliReading
    rw [hkind]
  rw [hsdk, hcli]
  constructor
  · intro halike
    refine ⟨fun hvalue ↦ halike.finite'.timeoutMs (congrArg some hvalue), fun n hn ↦ ?_⟩
    have hcount := halike.timeoutMs
    simp only [hn, Reading.count] at hcount
    by_contra hnonneg
    rw [if_neg hnonneg] at hcount
    cases hcount
  · rintro ⟨hfinite, hneg⟩
    refine ⟨⟨by simp, by simp⟩, ⟨by simpa using hfinite, by simp⟩, ?_, rfl⟩
    cases hvalue : timeoutMs.value with
    | int n => simp [Reading.count, hneg n hvalue]
    | unparsable => rfl
    | infinite => rfl

/-- On `tandem.split` they are alike when the task is not sharded. -/
theorem alike_split {task : ModuleTask} {chunk : PyNumber} {nodes : Nat}
    {module name qualname : String}
    (h : task.object = .split chunk (.function module name qualname)) :
    task.sdkReading.Alike nodes task.cliReading ↔
      (chunkSize chunk).toInt ≠ .infinite ∧
        (nodes < 2 ∨ ∀ n, (chunkSize chunk).toInt = .int n → n < 2) := by
  have hkind : task.kind = .split (some (chunkSize chunk).toInt) := by
    have hmarked := task.marked
    rw [h] at hmarked
    exact (Option.some.inj hmarked).symm
  have hsdk : task.sdkReading = ⟨none, none⟩ := by
    apply sdkReading_function
    rw [h]
    rfl
  have hcli : task.cliReading = ⟨none, some (chunkSize chunk).toInt⟩ := by
    unfold ModuleTask.cliReading
    rw [hkind]
  have hone : Reading.shards ⟨none, none⟩ nodes = 1 := rfl
  rw [hsdk, hcli]
  constructor
  · intro halike
    refine ⟨fun hvalue ↦ halike.finite'.cap (congrArg some hvalue), ?_⟩
    by_cases hnodes : nodes < 2
    · exact Or.inl hnodes
    · right
      intro n hn
      have hshards := halike.shards
      rw [hone] at hshards
      simp only [Reading.shards, hn, Reading.count] at hshards
      by_contra hlarge
      have hnonneg : ¬n < 0 := by omega
      have hcap : ¬(n.toNat < 2 ∨ nodes < 2) := by omega
      rw [if_neg hnonneg] at hshards
      dsimp only at hshards
      rw [if_neg hcap] at hshards
      omega
  · rintro ⟨hfinite, hshort⟩
    refine ⟨⟨by simp, by simp⟩, ⟨by simp, by simpa using hfinite⟩, rfl, ?_⟩
    rw [hone]
    cases hvalue : (chunkSize chunk).toInt with
    | unparsable => rfl
    | infinite => rfl
    | int n =>
      simp only [Reading.shards, Reading.count]
      by_cases hneg : n < 0
      · rw [if_pos hneg]
      · rw [if_neg hneg]
        dsimp only
        have hcap : n.toNat < 2 ∨ nodes < 2 := by
          rcases hshort with hnodes | hshort
          · exact Or.inr hnodes
          · have hn := hshort n hvalue
            omega
        rw [if_pos hcap]

theorem mem_shardUnits_name {taskName : String} {timeoutMs : Option Nat} {n : Nat}
    {unit : String × Option Nat × Option (Nat × Nat)} (h : unit ∈ shardUnits taskName timeoutMs n) :
    unit.1 = taskName ∧ unit.2.1 = timeoutMs := by
  obtain ⟨i, -, rfl⟩ := List.mem_map.mp h
  exact ⟨rfl, rfl⟩

theorem shardUnits_perm {taskName : String} {b b' : Option Nat} {n n' : Nat} (hn : 0 < n) :
    (shardUnits taskName b n).Perm (shardUnits taskName b' n') ↔ b = b' ∧ n = n' := by
  constructor
  · intro h
    have hlen := h.length_eq
    simp only [shardUnits, List.length_map, List.length_range] at hlen
    have hne : shardUnits taskName b n ≠ [] := by
      unfold shardUnits
      simpa using Nat.ne_of_gt hn
    obtain ⟨unit, hunit⟩ := List.exists_mem_of_ne_nil _ hne
    have hb := (mem_shardUnits_name hunit).2
    have hb' := (mem_shardUnits_name (h.mem_iff.mp hunit)).2
    exact ⟨hb.symm.trans hb', hlen⟩
  · rintro ⟨rfl, rfl⟩
    exact List.Perm.refl _

/-- The units of one task are those with its name. -/
theorem filter_flatMap_name {tasks : List ModuleTask}
    {units : ModuleTask → List (String × Option Nat × Option (Nat × Nat))}
    (hnodup : (tasks.map ModuleTask.exportName).Nodup)
    (hname : ∀ task, ∀ unit ∈ units task, unit.1 = task.exportName) {task : ModuleTask}
    (htask : task ∈ tasks) :
    (tasks.flatMap units).filter (fun unit ↦ unit.1 = task.exportName) = units task := by
  have hall : ∀ other, other.exportName = task.exportName →
      (units other).filter (fun unit ↦ unit.1 = task.exportName) = units other := by
    intro other hsame
    apply List.filter_eq_self.mpr
    intro unit hunit
    simp [hname other unit hunit, hsame]
  have hnone : ∀ other, other.exportName ≠ task.exportName →
      (units other).filter (fun unit ↦ unit.1 = task.exportName) = [] := by
    intro other hdiff
    apply List.filter_eq_nil_iff.mpr
    intro unit hunit
    simp [hname other unit hunit, hdiff]
  induction tasks with
  | nil => cases htask
  | cons head rest ih =>
    obtain ⟨hnot, hrest⟩ := List.nodup_cons.mp hnodup
    rw [List.flatMap_cons, List.filter_append]
    rcases List.mem_cons.mp htask with rfl | htask
    · have hothers : (rest.flatMap units).filter (fun unit ↦ unit.1 = task.exportName) = [] := by
        apply List.filter_eq_nil_iff.mpr
        intro unit hunit
        obtain ⟨other, hother, hmem⟩ := List.mem_flatMap.mp hunit
        have hdiff : other.exportName ≠ task.exportName := by
          intro hsame
          exact hnot (List.mem_map.mpr ⟨other, hother, hsame⟩)
        simp [hname other unit hmem, hdiff]
      rw [hall task rfl, hothers, List.append_nil]
    · have hdiff : head.exportName ≠ task.exportName := by
        intro hsame
        exact hnot (List.mem_map.mpr ⟨task, htask, hsame.symm⟩)
      rw [hnone head hdiff, List.nil_append]
      exact ih hrest htask

/-- Two builders ask for one multiset of units exactly when they ask for the same of each task. -/
theorem readingUnits_perm (available : AvailableNodes) (read read' : ModuleTask → Reading)
    {tasks : List ModuleTask}
    (hnodup : (tasks.map ModuleTask.exportName).Nodup) :
    (tasks.flatMap (readingUnits available read)).Perm
        (tasks.flatMap (readingUnits available read')) ↔
      ∀ task ∈ tasks, Reading.count (read task).timeoutMs = Reading.count (read' task).timeoutMs ∧
        (read task).shards available.nodes.length = (read' task).shards available.nodes.length := by
  have hname : ∀ (read : ModuleTask → Reading) task, ∀ unit ∈ readingUnits available read task,
      unit.1 = task.exportName :=
    fun _ _ _ hunit ↦ (mem_shardUnits_name hunit).1
  have hone : ∀ task, (readingUnits available read task).Perm (readingUnits available read' task) ↔
      Reading.count (read task).timeoutMs = Reading.count (read' task).timeoutMs ∧
        (read task).shards available.nodes.length = (read' task).shards available.nodes.length :=
    fun task ↦ shardUnits_perm ((read task).shards_pos _)
  constructor
  · intro h task htask
    have hfilter := h.filter fun unit ↦ unit.1 = task.exportName
    rw [filter_flatMap_name hnodup (hname read) htask,
      filter_flatMap_name hnodup (hname read') htask] at hfilter
    exact (hone task).mp hfilter
  · intro h
    exact List.Perm.flatMap_left _ fun task htask ↦ (hone task).mpr (h task htask)

variable [AsciiFold]

/-- The plans of the two manifests have one multiset of task name, timeout and shard, or the
server refuses both. -/
def BuildersAgree (queued : NodeId → Nat) (available : AvailableNodes) (module : EntryModule)
    (files : List Upload) : Prop :=
  planUnits queued available (sdkManifest module) files =
    planUnits queued available (cliManifest module) files

/-- An infinite option among those that a builder writes. -/
def HasInfinite (module : EntryModule) (read : ModuleTask → Reading) : Prop :=
  ∃ task ∈ module.tasks, ¬(read task).Finite

/-- The builders agree on the uploads of a module exactly when of every task they read options that
ask for the same, or neither manifest can be planned. -/
theorem builders_agree_iff (queued : NodeId → Nat) (available : AvailableNodes)
    (module : EntryModule) (files : List Upload) :
    BuildersAgree queued available module files ↔
      ¬UploadsFit files (module.tasks.map ModuleTask.exportName) ∨
      HasInfinite module ModuleTask.sdkReading ∧ HasInfinite module ModuleTask.cliReading ∨
      ∀ task ∈ module.tasks,
        task.sdkReading.Alike available.nodes.length task.cliReading := by
  classical
  unfold BuildersAgree
  rw [planUnits_eq queued sdkManifest_perm sdkEntry_says,
    planUnits_eq queued cliManifest_perm cliEntry_says]
  by_cases hfit : UploadsFit files (module.tasks.map ModuleTask.exportName)
  · simp only [hfit, true_and, not_true_eq_false, false_or]
    have hunits := readingUnits_perm available ModuleTask.sdkReading ModuleTask.cliReading
      module.distinct
    by_cases hsdk : ∀ task ∈ module.tasks, task.sdkReading.Finite
    · by_cases hcli : ∀ task ∈ module.tasks, task.cliReading.Finite
      · rw [if_pos hsdk, if_pos hcli]
        rw [Option.some_inj, Multiset.coe_eq_coe, hunits]
        constructor
        · intro h
          right
          intro task htask
          obtain ⟨htimeout, hshards⟩ := h task htask
          exact ⟨hsdk task htask, hcli task htask, htimeout, hshards⟩
        · rintro (⟨⟨task, htask, hinfinite⟩, -⟩ | h)
          · exact absurd (hsdk task htask) hinfinite
          · exact fun task htask ↦ ⟨(h task htask).timeoutMs, (h task htask).shards⟩
      · rw [if_pos hsdk, if_neg hcli]
        constructor
        · intro h
          cases h
        · rintro (⟨⟨task, htask, hinfinite⟩, -⟩ | h)
          · exact absurd (hsdk task htask) hinfinite
          · exact absurd (fun task htask ↦ (h task htask).finite') hcli
    · rw [if_neg hsdk]
      have hinfinite : HasInfinite module ModuleTask.sdkReading := by
        unfold HasInfinite
        push Not at hsdk
        exact hsdk
      have hnot : ¬∀ task ∈ module.tasks,
          task.sdkReading.Alike available.nodes.length task.cliReading :=
        fun h ↦ hsdk fun task htask ↦ (h task htask).finite
      by_cases hcli : ∀ task ∈ module.tasks, task.cliReading.Finite
      · rw [if_pos hcli]
        constructor
        · intro h
          cases h
        · rintro (⟨-, task, htask, hbad⟩ | h)
          · exact absurd (hcli task htask) hbad
          · exact absurd h hnot
      · rw [if_neg hcli]
        have hinfinite' : HasInfinite module ModuleTask.cliReading := by
          unfold HasInfinite
          push Not at hcli
          exact hcli
        exact iff_of_true rfl (Or.inl ⟨hinfinite, hinfinite'⟩)
  · simp only [hfit, false_and, if_false, not_false_eq_true, true_or]

end Agreement

/-! ## A timeout that is lost -/

namespace Sample

/-- `@tandem.compute(timeout_ms=50)` -/
def crunch : ModuleTask where
  exportName := "crunch"
  object := .compute ⟨.int 50, true, by decide⟩ (.function "app" "crunch" "crunch")
  wasm := [1]
  kind := .compute (some (.int 50))
  marked := rfl
  ownName := rfl
  identifier := by decide

def crunchModule : EntryModule := ⟨[crunch], by decide⟩

def crunchUpload : Upload := ⟨"crunch.wasm", [1]⟩

theorem crunchUpload_fits :
    UploadsFit [crunchUpload] (crunchModule.tasks.map ModuleTask.exportName) := by
  have hkey : crunchUpload.key = "crunch.wasm" ∧ secureFilename "crunch.wasm" = "crunch.wasm" := by
    decide
  refine ⟨by decide, ?_, by simp, ?_, ?_⟩
  · intro file hfile
    rw [List.mem_singleton.mp hfile, hkey.1]
    decide
  · simp [crunchModule, crunch, hkey]
  · simp [crunchModule, crunch, hkey]

end Sample

open Sample in
/-- The default timeout is only in the CLI's manifest. -/
theorem timeout_lost :
    planUnits (fun _ ↦ 0) oneNode (sdkManifest crunchModule) [crunchUpload] =
        some {("crunch", none, none)} ∧
      planUnits (fun _ ↦ 0) oneNode (cliManifest crunchModule) [crunchUpload] =
        some {("crunch", some 50, none)} ∧
      ¬BuildersAgree (fun _ ↦ 0) oneNode crunchModule [crunchUpload] := by
  have hsdkFinite : ∀ task ∈ crunchModule.tasks, task.sdkReading.Finite := by
    intro task htask
    rw [List.mem_singleton.mp htask]
    exact ⟨by decide, by decide⟩
  have hcliFinite : ∀ task ∈ crunchModule.tasks, task.cliReading.Finite := by
    intro task htask
    rw [List.mem_singleton.mp htask]
    exact ⟨by decide, by decide⟩
  have hsdk : planUnits (fun _ ↦ 0) oneNode (sdkManifest crunchModule) [crunchUpload] =
      some {("crunch", none, none)} := by
    rw [planUnits_eq _ sdkManifest_perm sdkEntry_says, if_pos ⟨crunchUpload_fits, hsdkFinite⟩]
    rfl
  have hcli : planUnits (fun _ ↦ 0) oneNode (cliManifest crunchModule) [crunchUpload] =
      some {("crunch", some 50, none)} := by
    rw [planUnits_eq _ cliManifest_perm cliEntry_says, if_pos ⟨crunchUpload_fits, hcliFinite⟩]
    rfl
  refine ⟨hsdk, hcli, ?_⟩
  unfold BuildersAgree
  rw [hsdk, hcli]
  decide

end TandemAio
