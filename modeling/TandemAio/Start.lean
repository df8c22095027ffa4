import TandemAio.Manifest
import TandemAio.Reasoning.Raising
import TandemAio.TaskQueue

/-!
# `app/blueprints/start.py`: the tasks of a job

How the server plans the tasks of a job from a manifest and the uploaded files.
-/

namespace TandemAio

/-- An exception of the planning code.  Only a `ValueError` is answered with its text. -/
inductive PlanError
  | valueError (message : String)
  | overflowError
deriving DecidableEq

abbrev Plan := Except PlanError

def Plan.valueError {α : Type} (message : String) : Plan α := .error (.valueError message)

/-- The nodes that a job may be planned for.  `start` answers 503 when there are none. -/
structure AvailableNodes where
  nodes : List NodeId
  nonempty : nodes ≠ []

/-- `_coerce_non_negative_int`, for a value that may be missing. -/
def coerceNonNegativeInt : Option OptionValue → Plan (Option Nat)
  | none => .ok none
  | some .unparsable => .ok none
  -- `OverflowError` is not among the exceptions that are caught
  | some .infinite => .error .overflowError
  | some (.int value) => .ok (if value < 0 then none else some value.toNat)

/-- `node_load` after some assignments: how many tasks each node has been given. -/
abbrev NodeLoad := NodeId → Nat

/-- `select_least_loaded_node`: the first node with the shortest queue, and the new load. -/
def selectLeastLoadedNode (queued : NodeId → Nat) (available : AvailableNodes)
    (pending : NodeLoad) : NodeId × NodeLoad :=
  let load := fun nodeId ↦ queued nodeId + pending nodeId
  let chosen := (available.nodes.tail).foldl
    (fun best nodeId ↦ if load nodeId < load best then nodeId else best)
    (available.nodes.head available.nonempty)
  (chosen, Function.update pending chosen (pending chosen + 1))

/-- A name as the messages show it. -/
def quoted (name : String) : String := "`" ++ name ++ "`"

/-- The loop of `_collect_wasm_uploads`, with the uploads it has collected. -/
def collectFrom [AsciiFold] (uploads : List (String × List UInt8)) :
    List Upload → Plan (List (String × List UInt8))
  | [] => .ok uploads
  | wasmFile :: rest =>
    let filename := secureFilename (pathName wasmFile.filename)
    if filename = "" then
      Plan.valueError "One uploaded wasm file did not have a usable filename"
    else if ¬".wasm".toList <:+ filename.toList then
      Plan.valueError ("Uploaded file " ++ quoted filename ++ " is not a `.wasm` artifact")
    else if filename ∈ uploads.map Prod.fst then
      Plan.valueError ("Duplicate wasm upload for " ++ quoted filename)
    else if wasmFile.payload = [] then
      Plan.valueError ("WASM artifact " ++ quoted filename ++ " was empty")
    else
      collectFrom (uploads ++ [(filename, wasmFile.payload)]) rest

/-- `_collect_wasm_uploads`. -/
def collectWasmUploads [AsciiFold] (wasmFiles : List Upload) : Plan (List (String × List UInt8)) :=
  if wasmFiles = [] then Plan.valueError "No wasm files provided" else collectFrom [] wasmFiles

/-- `str.lower`, of the ASCII letters. -/
def lower (s : String) : String := String.ofList (s.toList.map Char.toLower)

/-- `_planned_wasm_shards`. -/
def plannedWasmShards (entry : ManifestEntry) (available : AvailableNodes) : Plan Nat :=
  match entry.split with
  | none => .ok 1
  | some hint =>
    if lower (strStrip hint.strategy) ≠ "data_parallel" then .ok 1
    else do
      let cap ← coerceNonNegativeInt (hint.chunk <|> hint.maxShards)
      -- `.. or 1`
      let shardCap := (cap.filter (· ≠ 0)).getD 1
      if shardCap < 2 ∨ available.nodes.length < 2 then return 1
      else return min available.nodes.length shardCap

/-! ## Planning -/

/-- A planned task, with the runtime `wasm`. -/
structure PlannedTask where
  filename : String
  payload : List UInt8
  assignedNode : NodeId
  taskName : String
  timeoutMs : Option Nat
  /-- `shard_index` and `shard_total`, for a task of more than one shard. -/
  shard : Option (Nat × Nat)
deriving DecidableEq

/-- The shards of one entry, from `shardIndex` on. -/
def planShards (queued : NodeId → Nat) (available : AvailableNodes) (task : NodeId → PlannedTask)
    (shardTotal : Nat) (shardIndex : Nat) : Nat → NodeLoad → List PlannedTask × NodeLoad
  | 0, load => ([], load)
  | left + 1, load =>
    let (node, load) := selectLeastLoadedNode queued available load
    let shard := if 1 < shardTotal then some (shardIndex, shardTotal) else none
    let (rest, load) := planShards queued available task shardTotal (shardIndex + 1) left load
    ({ task node with shard := shard } :: rest, load)

/-- The loop of `_plan_wasm_tasks` over the manifest: the planned tasks and the used uploads. -/
def planEntries [AsciiFold] (queued : NodeId → Nat) (available : AvailableNodes)
    (uploads : List (String × List UInt8)) :
    List ManifestEntry → NodeLoad → Plan (List PlannedTask × List String)
  | [], _ => .ok ([], [])
  | entry :: rest, load =>
    let taskName := strStrip entry.name
    let wasmPath := strStrip entry.wasm
    if taskName = "" ∨ wasmPath = "" then
      Plan.valueError "Each manifest task needs both `name` and `wasm`"
    else
      let uploadName := secureFilename (pathName wasmPath)
      if uploadName = "" then
        Plan.valueError ("Manifest task " ++ quoted taskName ++ " had an invalid wasm path")
      else
        match uploads.lookup uploadName with
        | none => Plan.valueError ("Manifest task " ++ quoted taskName ++ " expected upload " ++
            quoted uploadName ++ ", but it was missing")
        | some payload => do
          let shardTotal ← plannedWasmShards entry available
          let timeoutMs ← coerceNonNegativeInt entry.timeoutMs
          let task := fun node ↦ ⟨uploadName, payload, node, taskName, timeoutMs, none⟩
          let (planned, load) := planShards queued available task shardTotal 0 shardTotal load
          let (more, used) ← planEntries queued available uploads rest load
          return (planned ++ more, uploadName :: used)

/-- `_plan_wasm_tasks`. -/
def planWasmTasks [AsciiFold] (queued : NodeId → Nat) (available : AvailableNodes)
    (manifest : List ManifestEntry) (wasmFiles : List Upload) : Plan (List PlannedTask) := do
  let uploads ← collectWasmUploads wasmFiles
  let (planned, used) ← planEntries queued available uploads manifest fun _ ↦ 0
  let unused := ((uploads.map Prod.fst).filter (· ∉ used)).insertionSort (· ≤ ·)
  if unused ≠ [] then
    Plan.valueError ("Uploaded wasm files were not referenced by the manifest: " ++
      ", ".intercalate unused)
  else if planned = [] then
    Plan.valueError "Manifest did not produce any runnable wasm tasks"
  else
    return planned

/-! ## Uploads -/

section Uploads

variable [AsciiFold] {uploads result : List (String × List UInt8)} {files : List Upload}

/-- The key of an upload. -/
def Upload.key (file : Upload) : String := secureFilename (pathName file.filename)

/-- What the checks of `_collect_wasm_uploads` ask of a file, among the names that are taken. -/
structure Upload.Usable (taken : List String) (file : Upload) : Prop where
  named : file.key ≠ ""
  wasm : ".wasm".toList <:+ file.key.toList
  fresh : file.key ∉ taken
  nonempty : file.payload ≠ []

theorem collectFrom_cons {file : Upload} {rest : List Upload} :
    collectFrom uploads (file :: rest) = .ok result ↔
      file.Usable (uploads.map Prod.fst) ∧
        collectFrom (uploads ++ [(file.key, file.payload)]) rest = .ok result := by
  have hunfold : collectFrom uploads (file :: rest) =
      if file.key = "" then
        Plan.valueError "One uploaded wasm file did not have a usable filename"
      else if ¬".wasm".toList <:+ file.key.toList then
        Plan.valueError ("Uploaded file " ++ quoted file.key ++ " is not a `.wasm` artifact")
      else if file.key ∈ uploads.map Prod.fst then
        Plan.valueError ("Duplicate wasm upload for " ++ quoted file.key)
      else if file.payload = [] then
        Plan.valueError ("WASM artifact " ++ quoted file.key ++ " was empty")
      else
        collectFrom (uploads ++ [(file.key, file.payload)]) rest := rfl
  rw [hunfold]
  constructor
  · intro h
    split at h
    · cases h
    · rename_i hnamed
      split at h
      · cases h
      · rename_i hwasm
        split at h
        · cases h
        · rename_i hfresh
          split at h
          · cases h
          · rename_i hpayload
            exact ⟨⟨hnamed, not_not.mp hwasm, hfresh, hpayload⟩, h⟩
  · rintro ⟨⟨hnamed, hwasm, hfresh, hpayload⟩, h⟩
    rw [if_neg hnamed, if_neg (not_not.mpr hwasm), if_neg hfresh, if_neg hpayload]
    exact h

/-- The uploads are accepted exactly when their keys are usable and distinct and no file is
empty. -/
theorem collectFrom_ok :
    collectFrom uploads files = .ok result ↔
      (∀ file ∈ files, ".wasm".toList <:+ file.key.toList ∧ file.payload ≠ []) ∧
      (files.map Upload.key).Nodup ∧ (∀ file ∈ files, file.key ∉ uploads.map Prod.fst) ∧
      result = uploads ++ files.map fun file ↦ (file.key, file.payload) := by
  induction files generalizing uploads with
  | nil => simp [collectFrom, eq_comm]
  | cons file rest ih =>
    rw [collectFrom_cons, ih]
    have hkeys : (uploads ++ [(file.key, file.payload)]).map Prod.fst =
        uploads.map Prod.fst ++ [file.key] := by
      simp
    have hresult : uploads ++ [(file.key, file.payload)] ++
        rest.map (fun file ↦ (file.key, file.payload)) =
          uploads ++ (file :: rest).map fun file ↦ (file.key, file.payload) := by
      simp
    rw [hkeys, hresult]
    constructor
    · rintro ⟨⟨-, hwasm, hfresh, hpayload⟩, hrest, hnodup, htaken, rfl⟩
      refine ⟨?_, ?_, ?_, rfl⟩
      · intro x hx
        rcases List.mem_cons.mp hx with rfl | hx
        · exact ⟨hwasm, hpayload⟩
        · exact hrest x hx
      · refine List.nodup_cons.mpr ⟨?_, hnodup⟩
        intro hmem
        obtain ⟨x, hx, hkey⟩ := List.mem_map.mp hmem
        exact htaken x hx (by simp [hkey])
      · intro x hx
        rcases List.mem_cons.mp hx with rfl | hx
        · exact hfresh
        · exact fun hmem ↦ htaken x hx (List.mem_append_left _ hmem)
    · rintro ⟨hall, hnodup, htaken, rfl⟩
      obtain ⟨hwasm, hpayload⟩ := hall file List.mem_cons_self
      obtain ⟨hnot, hnodup⟩ := List.nodup_cons.mp hnodup
      refine ⟨⟨?_, hwasm, htaken file List.mem_cons_self, hpayload⟩,
        fun x hx ↦ hall x (List.mem_cons_of_mem _ hx), hnodup, ?_, rfl⟩
      · -- a name that ends with `.wasm` is not empty
        intro hempty
        rw [hempty] at hwasm
        revert hwasm
        decide
      · intro x hx hmem
        rcases List.mem_append.mp hmem with hmem | hmem
        · exact htaken x (List.mem_cons_of_mem _ hx) hmem
        · rw [List.mem_singleton] at hmem
          exact hnot (List.mem_map.mpr ⟨x, hx, hmem⟩)

theorem collectWasmUploads_ok :
    collectWasmUploads files = .ok result ↔
      files ≠ [] ∧ (∀ file ∈ files, ".wasm".toList <:+ file.key.toList ∧ file.payload ≠ []) ∧
      (files.map Upload.key).Nodup ∧ result = files.map fun file ↦ (file.key, file.payload) := by
  unfold collectWasmUploads
  by_cases hfiles : files = []
  · rw [if_pos hfiles]
    constructor
    · intro h
      cases h
    · rintro ⟨hne, -⟩
      exact absurd hfiles hne
  · rw [if_neg hfiles, collectFrom_ok]
    simp [hfiles]

end Uploads

/-! ## Entries -/

section Entries

variable {queued : NodeId → Nat} {available : AvailableNodes}

theorem coerceNonNegativeInt_ok {value : Option OptionValue} :
    (∃ n, coerceNonNegativeInt value = .ok n) ↔ value ≠ some .infinite := by
  cases value with
  | none => simp [coerceNonNegativeInt]
  | some value => cases value <;> simp [coerceNonNegativeInt]

theorem plannedWasmShards_pos {entry : ManifestEntry} {n : Nat}
    (h : plannedWasmShards entry available = .ok n) : 0 < n := by
  unfold plannedWasmShards at h
  split at h
  · cases h
    decide
  · split at h
    · cases h
      decide
    · obtain ⟨cap, -, h⟩ := Reasoning.except_bind_ok.mp h
      dsimp only at h
      split at h
      · cases h
        decide
      · rename_i hmany
        cases h
        omega

/-- An option that is not infinite has a number of shards. -/
theorem plannedWasmShards_ok {entry : ManifestEntry}
    (h : ∀ hint, entry.split = some hint → (hint.chunk <|> hint.maxShards) ≠ some .infinite) :
    ∃ n, plannedWasmShards entry available = .ok n := by
  unfold plannedWasmShards
  split
  · exact ⟨1, rfl⟩
  · rename_i hint hsplit
    split
    · exact ⟨1, rfl⟩
    · obtain ⟨cap, hcap⟩ := coerceNonNegativeInt_ok.mpr (h hint hsplit)
      rw [hcap]
      dsimp only [bind, Except.bind]
      split
      · exact ⟨1, rfl⟩
      · exact ⟨_, rfl⟩

theorem plannedWasmShards_infinite {entry : ManifestEntry} {hint : SplitHint}
    (hsplit : entry.split = some hint) (hstrategy : lower (strStrip hint.strategy) = "data_parallel")
    (hchunk : hint.chunk = some .infinite) (n : Nat) :
    plannedWasmShards entry available ≠ .ok n := by
  intro h
  unfold plannedWasmShards at h
  rw [hsplit] at h
  dsimp only at h
  rw [if_neg (not_not.mpr hstrategy), hchunk] at h
  cases h

/-- Every shard is the task on some node. -/
theorem planShards_spec (queued : NodeId → Nat) (available : AvailableNodes)
    (task : NodeId → PlannedTask) (shardTotal shardIndex left : Nat) (load : NodeLoad) :
    (planShards queued available task shardTotal shardIndex left load).1.length = left ∧
      ∀ p ∈ (planShards queued available task shardTotal shardIndex left load).1,
        ∃ node shard, p = { task node with shard := shard } := by
  induction left generalizing shardIndex load with
  | zero => simp [planShards]
  | succ left ih =>
    unfold planShards
    obtain ⟨hlen, hall⟩ := ih (shardIndex + 1) (selectLeastLoadedNode queued available load).2
    refine ⟨?_, ?_⟩
    · simp only [List.length_cons, hlen]
    · intro p hp
      rcases List.mem_cons.mp hp with rfl | hp
      · exact ⟨_, _, rfl⟩
      · exact hall p hp

variable [AsciiFold] {uploads : List (String × List UInt8)}

/-- The upload an entry asks for. -/
def ManifestEntry.uploadName (entry : ManifestEntry) : String :=
  secureFilename (pathName (strStrip entry.wasm))

/-- What the loop asks of an entry. -/
structure ManifestEntry.Runnable (uploads : List (String × List UInt8)) (available : AvailableNodes)
    (entry : ManifestEntry) : Prop where
  named : strStrip entry.name ≠ ""
  path : strStrip entry.wasm ≠ ""
  upload : entry.uploadName ≠ ""
  uploaded : ∃ payload, uploads.lookup entry.uploadName = some payload
  shards : ∃ n, plannedWasmShards entry available = .ok n
  timeout : entry.timeoutMs ≠ some .infinite

/-- A planned task of an entry. -/
structure PlannedTask.Of (uploads : List (String × List UInt8)) (entry : ManifestEntry)
    (p : PlannedTask) : Prop where
  taskName : p.taskName = strStrip entry.name
  filename : p.filename = entry.uploadName
  payload : uploads.lookup entry.uploadName = some p.payload

theorem planEntries_spec {entries : List ManifestEntry} {load : NodeLoad}
    {planned : List PlannedTask} {used : List String}
    (h : planEntries queued available uploads entries load = .ok (planned, used)) :
    used = entries.map ManifestEntry.uploadName ∧ (∀ e ∈ entries, e.Runnable uploads available) ∧
      (∀ p ∈ planned, ∃ e ∈ entries, p.Of uploads e) ∧
      ∀ e ∈ entries, ∃ p ∈ planned, p.Of uploads e := by
  induction entries generalizing load planned used with
  | nil =>
    cases h
    simp
  | cons entry rest ih =>
    unfold planEntries at h
    dsimp only at h
    split at h
    · cases h
    · rename_i hnames
      rw [not_or] at hnames
      split at h
      · cases h
      · rename_i hupload
        split at h
        · cases h
        · rename_i payload hlookup
          obtain ⟨shardTotal, hshards, h⟩ := Reasoning.except_bind_ok.mp h
          obtain ⟨timeoutMs, htimeout, h⟩ := Reasoning.except_bind_ok.mp h
          obtain ⟨⟨more, used'⟩, hrest, h⟩ := Reasoning.except_bind_ok.mp h
          cases h
          obtain ⟨hused, hrunnable, hof, hall⟩ := ih hrest
          obtain ⟨hlen, hshard⟩ := planShards_spec queued available (fun node ↦
            ⟨entry.uploadName, payload, node, strStrip entry.name, timeoutMs, none⟩)
            shardTotal 0 shardTotal load
          have hown : ∀ p ∈ (planShards queued available (fun node ↦ ⟨entry.uploadName, payload,
              node, strStrip entry.name, timeoutMs, none⟩) shardTotal 0 shardTotal load).1,
              p.Of uploads entry := by
            intro p hp
            obtain ⟨node, shard, rfl⟩ := hshard p hp
            exact ⟨rfl, rfl, hlookup⟩
          refine ⟨?_, ?_, ?_, ?_⟩
          · rw [List.map_cons, ← hused]
            rfl
          · intro e he
            rcases List.mem_cons.mp he with rfl | he
            · exact ⟨hnames.1, hnames.2, hupload, ⟨payload, hlookup⟩, ⟨shardTotal, hshards⟩,
                coerceNonNegativeInt_ok.mp ⟨timeoutMs, htimeout⟩⟩
            · exact hrunnable e he
          · intro p hp
            rcases List.mem_append.mp hp with hp | hp
            · exact ⟨entry, List.mem_cons_self, hown p hp⟩
            · obtain ⟨e, he, hpe⟩ := hof p hp
              exact ⟨e, List.mem_cons_of_mem _ he, hpe⟩
          · intro e he
            rcases List.mem_cons.mp he with rfl | he
            · -- there is at least one shard
              have hne : (planShards queued available (fun node ↦ ⟨e.uploadName, payload,
                  node, strStrip e.name, timeoutMs, none⟩) shardTotal 0 shardTotal load).1 ≠
                  [] := by
                intro hnil
                have hpos := plannedWasmShards_pos hshards
                rw [hnil] at hlen
                exact absurd hlen.symm (by simpa using Nat.ne_of_gt hpos)
              obtain ⟨p, hp⟩ := List.exists_mem_of_ne_nil _ hne
              exact ⟨p, List.mem_append_left _ hp, hown p hp⟩
            · obtain ⟨p, hp, hpe⟩ := hall e he
              exact ⟨p, List.mem_append_right _ hp, hpe⟩

theorem planEntries_total (queued : NodeId → Nat) (load : NodeLoad)
    {entries : List ManifestEntry}
    (h : ∀ e ∈ entries, e.Runnable uploads available) :
    ∃ result, planEntries queued available uploads entries load = .ok result := by
  induction entries generalizing load with
  | nil => exact ⟨_, rfl⟩
  | cons entry rest ih =>
    obtain ⟨hname, hpath, hupload, ⟨payload, hlookup⟩, ⟨shardTotal, hshards⟩, htimeout⟩ :=
      h entry List.mem_cons_self
    obtain ⟨timeoutMs, htimeout⟩ := coerceNonNegativeInt_ok.mpr htimeout
    unfold planEntries
    dsimp only
    rw [if_neg (not_or.mpr ⟨hname, hpath⟩)]
    unfold ManifestEntry.uploadName at hupload hlookup
    rw [if_neg hupload, hlookup, hshards, htimeout]
    dsimp only [bind, Except.bind]
    obtain ⟨result, hresult⟩ := ih (planShards queued available (fun node ↦
      ⟨secureFilename (pathName (strStrip entry.wasm)), payload, node, strStrip entry.name,
        timeoutMs, none⟩) shardTotal 0 shardTotal load).2
      (fun e he ↦ h e (List.mem_cons_of_mem _ he))
    rw [hresult]
    exact ⟨_, rfl⟩

/-- A plan is made exactly when the uploads are usable, every entry can run, and every upload is
referenced. -/
theorem planWasmTasks_ok {manifest : List ManifestEntry} {files : List Upload}
    {planned : List PlannedTask} :
    planWasmTasks queued available manifest files = .ok planned ↔
      ∃ uploads used, collectWasmUploads files = .ok uploads ∧
        planEntries queued available uploads manifest (fun _ ↦ 0) = .ok (planned, used) ∧
        (∀ upload ∈ uploads, upload.1 ∈ used) ∧ planned ≠ [] := by
  have hunused : ∀ (uploads : List (String × List UInt8)) (used : List String),
      ((uploads.map Prod.fst).filter (· ∉ used)).insertionSort (· ≤ ·) = [] ↔
        ∀ upload ∈ uploads, upload.1 ∈ used := by
    intro uploads used
    rw [← List.length_eq_zero_iff, List.length_insertionSort, List.length_eq_zero_iff,
      List.filter_eq_nil_iff]
    simp
  unfold planWasmTasks
  constructor
  · intro h
    obtain ⟨uploads, huploads, h⟩ := Reasoning.except_bind_ok.mp h
    obtain ⟨⟨planned', used⟩, hentries, h⟩ := Reasoning.except_bind_ok.mp h
    dsimp only at h
    split at h
    · cases h
    · rename_i hused
      split at h
      · cases h
      · rename_i hplanned
        cases h
        exact ⟨uploads, used, huploads, hentries, (hunused uploads used).mp (not_not.mp hused),
          hplanned⟩
  · rintro ⟨uploads, used, huploads, hentries, hused, hplanned⟩
    rw [huploads]
    dsimp only [bind, Except.bind]
    rw [hentries]
    dsimp only
    rw [if_neg (not_not.mpr ((hunused uploads used).mpr hused)), if_neg hplanned]
    rfl

end Entries

end TandemAio
