import TandemAio.ManifestUpload

/-!
# Planning an uploaded manifest

Which manifests and uploads are planned, what the plan is, and which manifests raise more than a
`ValueError`.
-/

open Reasoning

namespace TandemAio

/-! ## What an entry says -/

section Entries

variable [PythonText] {fields : JsonFields}

/-- The text of a member; a value that is false has none. -/
def EntryText (fields : JsonFields) (key : String) (text : PyStr) : Prop :=
  ((getField fields key).truthy = false ∧ text = []) ∨
    ((getField fields key).truthy = true ∧ text = PyStr.strip (getField fields key).toStr)

/-- A member that `int` takes, and that is not negative. -/
def EntryNumber (fields : JsonFields) (key : String) (n : Nat) : Prop :=
  (getField fields key).toInt = .ok n

/-- The cap of an entry whose split hint is `data_parallel`: its `chunk`, or its `max_shards` if it
has no `chunk`. -/
def EntryCap (fields : JsonFields) (cap : Nat) : Prop :=
  ∃ hint strategy, getField fields "split" = .dict hint ∧ EntryText hint "strategy" strategy ∧
    lowerPoints strategy = points "data_parallel" ∧
    ((getField hint "chunk" ≠ .null ∧ EntryNumber hint "chunk" cap) ∨
      (getField hint "chunk" = .null ∧ EntryNumber hint "max_shards" cap))

/-- The entry is fanned out to `k` tasks on `nodes` nodes. -/
def EntryFans (fields : JsonFields) (nodes k : Nat) : Prop :=
  (∃ cap, EntryCap fields cap ∧ 2 ≤ cap ∧ 2 ≤ nodes ∧ k = min nodes cap) ∨
    ((¬∃ cap, EntryCap fields cap ∧ 2 ≤ cap ∧ 2 ≤ nodes) ∧ k = 1)

/-- The normalised file name of the entry's wasm path. -/
def EntryFile [AsciiFold] (fields : JsonFields) (key : String) : Prop :=
  ∃ path, EntryText fields "wasm" path ∧ key = secureFilenamePoints (pathNamePoints path)

theorem entryText_iff {key : String} {text : PyStr} :
    EntryText fields key text ↔ text = textField fields key := by
  unfold EntryText textField
  cases htruthy : (getField fields key).truthy with
  | false => simp [htruthy, PyStr.strip]
  | true => simp [htruthy]

theorem entryNumber_iff {key : String} {n : Nat} :
    EntryNumber fields key n ↔ count (getField fields key) = some n := by
  unfold EntryNumber count
  cases hvalue : (getField fields key).toInt with
  | error e => simp
  | ok value =>
    rw [Except.ok.injEq]
    dsimp only
    split_ifs with hneg
    · exact iff_of_false (by omega) (by simp)
    · rw [Option.some.injEq]
      omega

theorem entryCap_iff {cap : Nat} : EntryCap fields cap ↔ splitCap fields = some cap := by
  have hcap : ∀ hint, ((getField hint "chunk" ≠ .null ∧ EntryNumber hint "chunk" cap) ∨
      (getField hint "chunk" = .null ∧ EntryNumber hint "max_shards" cap)) ↔
      count (rawCap hint) = some cap := by
    intro hint
    rw [entryNumber_iff, entryNumber_iff, rawCap]
    cases hchunk : getField hint "chunk" <;> simp
  unfold EntryCap splitCap
  simp only [entryText_iff, hcap]
  cases getField fields "split" with
  | dict hint => simp
  | _ => simp

theorem entryFans_iff {nodes k : Nat} : EntryFans fields nodes k ↔ k = shardCount fields nodes := by
  unfold EntryFans shardCount
  simp only [entryCap_iff]
  cases splitCap fields with
  | none => simp
  | some cap =>
    by_cases hmany : 2 ≤ cap ∧ 2 ≤ nodes
    · simp [hmany]
    · have hnone : ¬∃ cap', some cap = some cap' ∧ 2 ≤ cap' ∧ 2 ≤ nodes := by
        rintro ⟨cap', hcap, h⟩
        cases hcap
        exact hmany h
      dsimp only
      rw [if_neg hmany]
      constructor
      · rintro (⟨cap', hcap, h, h', -⟩ | ⟨-, hone⟩)
        · exact absurd ⟨cap', hcap, h, h'⟩ hnone
        · exact hone
      · exact fun hone ↦ Or.inr ⟨hnone, hone⟩

theorem entryFile_iff [AsciiFold] {key : String} :
    EntryFile fields key ↔ entryUploadName fields = key := by
  unfold EntryFile entryUploadName
  simp only [entryText_iff, exists_eq_left]
  exact eq_comm

end Entries

/-! ## The loop -/

section Loop

variable [PythonText] [AsciiFold] {queued : NodeId → Nat} {available : AvailableNodes}
  {files : List Upload}

/-- The entries whose checks succeed: they have a name, and the file of their path was uploaded. -/
structure EntryAccepted (files : List Upload) (rawEntry : JsonFields) : Prop where
  name : ¬EntryText rawEntry "name" []
  wasm : ¬EntryText rawEntry "wasm" []
  uploaded : ∃ file ∈ files, EntryFile rawEntry file.key

theorem entryAccepted_iff {rawEntry : JsonFields} :
    EntryAccepted files rawEntry ↔ textField rawEntry "name" ≠ [] ∧
      textField rawEntry "wasm" ≠ [] ∧ ∃ file ∈ files, file.key = entryUploadName rawEntry := by
  have hfile : ∀ file : Upload, EntryFile rawEntry file.key ↔
      file.key = entryUploadName rawEntry := fun file ↦ entryFile_iff.trans eq_comm
  constructor
  · rintro ⟨hname, hwasm, file, hfile', hkey⟩
    exact ⟨fun h ↦ hname (entryText_iff.mpr h.symm), fun h ↦ hwasm (entryText_iff.mpr h.symm),
      file, hfile', (hfile file).mp hkey⟩
  · rintro ⟨hname, hwasm, file, hfile', hkey⟩
    exact ⟨fun h ↦ hname (entryText_iff.mp h).symm, fun h ↦ hwasm (entryText_iff.mp h).symm,
      file, hfile', (hfile file).mpr hkey⟩

theorem entryPayload_cases (h : UploadsAccepted files) (rawEntry : JsonFields) :
    (EntryAccepted files rawEntry ∧ ∃ file ∈ files, file.key = entryUploadName rawEntry ∧
      entryPayload (uploaded files) rawEntry = .ok file.payload) ∨
    (¬EntryAccepted files rawEntry ∧ ∃ message,
      entryPayload (uploaded files) rawEntry = .error (.valueError message)) := by
  rw [entryAccepted_iff]
  unfold entryPayload
  dsimp only
  by_cases hnames : textField rawEntry "name" = [] ∨ textField rawEntry "wasm" = []
  · right
    rw [if_pos hnames]
    refine ⟨?_, _, rfl⟩
    rintro ⟨hname, hwasm, -⟩
    exact hnames.elim hname hwasm
  rw [if_neg hnames]
  by_cases hempty : entryUploadName rawEntry = ""
  · right
    rw [if_pos hempty]
    refine ⟨?_, _, rfl⟩
    rintro ⟨-, -, file, hfile, hkey⟩
    exact (h.usable file hfile).1 (hkey.trans hempty)
  rw [if_neg hempty]
  cases hlookup : (uploaded files).lookup (entryUploadName rawEntry) with
  | none =>
    right
    refine ⟨?_, _, rfl⟩
    rintro ⟨-, -, file, hfile, hkey⟩
    rw [(lookup_uploaded h.distinct).mpr ⟨file, hfile, hkey, rfl⟩] at hlookup
    cases hlookup
  | some payload =>
    left
    rw [not_or] at hnames
    obtain ⟨file, hfile, hkey, rfl⟩ := (lookup_uploaded h.distinct).mp hlookup
    exact ⟨⟨hnames.1, hnames.2, file, hfile, hkey⟩, file, hfile, hkey, rfl⟩

/-- The tasks of one entry, on available nodes and in the order of their indices. -/
def Fanned (available : AvailableNodes) (files : List Upload) (raw : JsonValue)
    (group : List WasmTask) : Prop :=
  ∃ (rawEntry : JsonFields) (name : PyStr) (timeoutMs : Option Nat) (file : Upload)
      (nodes : List NodeId),
    raw = .dict rawEntry ∧ EntryText rawEntry "name" name ∧
    (∀ n, timeoutMs = some n ↔ EntryNumber rawEntry "timeout_ms" n) ∧
    file ∈ files ∧ EntryFile rawEntry file.key ∧
    EntryFans rawEntry available.nodes.length nodes.length ∧
    (∀ node ∈ nodes, node ∈ available.nodes) ∧
    group = nodes.mapIdx fun shardIndex node ↦
      { filename := file.key
        payload := file.payload
        assignedNode := node
        taskName := name
        timeoutMs := timeoutMs
        shard := if 1 < nodes.length then some (shardIndex, nodes.length) else none }

theorem Fanned.ne_nil {raw : JsonValue} {group : List WasmTask}
    (h : Fanned available files raw group) : group ≠ [] := by
  obtain ⟨rawEntry, name, timeoutMs, file, nodes, -, -, -, -, -, hfans, -, rfl⟩ := h
  have hpos := shardCount_pos rawEntry available.nodes.length
  rw [← entryFans_iff.mp hfans] at hpos
  intro hnil
  have hzero := congrArg List.length hnil
  rw [List.length_mapIdx, List.length_nil] at hzero
  omega

omit [PythonText] [AsciiFold] in
theorem wasmShards_spec (queued : NodeId → Nat) (available : AvailableNodes)
    (task : NodeId → WasmTask) (shardTotal shardIndex left : Nat) (load : NodeLoad) :
    ∃ nodes : List NodeId, nodes.length = left ∧ (∀ node ∈ nodes, node ∈ available.nodes) ∧
      (wasmShards queued available task shardTotal shardIndex left load).1 =
        nodes.mapIdx fun i node ↦ { task node with
          shard := if 1 < shardTotal then some (shardIndex + i, shardTotal) else none } := by
  induction left generalizing shardIndex load with
  | zero => exact ⟨[], rfl, by simp, rfl⟩
  | succ left ih =>
    have hmem := (selectLeastLoadedNode_spec queued available load).1
    obtain ⟨nodes, hlen, hall, heq⟩ :=
      ih (shardIndex + 1) (selectLeastLoadedNode queued available load).2
    refine ⟨(selectLeastLoadedNode queued available load).1 :: nodes, ?_, ?_, ?_⟩
    · rw [List.length_cons, hlen]
    · intro node hnode
      rcases List.mem_cons.mp hnode with rfl | hnode
      · exact hmem
      · exact hall node hnode
    · have hshift : ∀ i, shardIndex + 1 + i = shardIndex + (i + 1) := by
        intro i
        omega
      rw [wasmShards]
      dsimp only
      rw [heq, List.mapIdx_cons]
      simp only [hshift, Nat.add_zero]

/-- What the loop makes of its first entry: its tasks before those of the rest, an
`OverflowError`, or a `ValueError`. -/
theorem planRawEntries_cons (queued : NodeId → Nat) (available : AvailableNodes)
    (h : UploadsAccepted files) (raw : JsonValue) (rest : List JsonValue)
    (load : NodeLoad) :
    (∃ (rawEntry : JsonFields) (load' : NodeLoad) (group : List WasmTask),
      raw = .dict rawEntry ∧ EntryAccepted files rawEntry ∧ FiniteOptions rawEntry ∧
      Fanned available files raw group ∧
      planRawEntries queued available (uploaded files) (raw :: rest) load =
        (planRawEntries queued available (uploaded files) rest load').map fun (more, used) ↦
          (group ++ more, entryUploadName rawEntry :: used)) ∨
    (∃ rawEntry : JsonFields, raw = .dict rawEntry ∧ EntryAccepted files rawEntry ∧
      ¬FiniteOptions rawEntry ∧
      planRawEntries queued available (uploaded files) (raw :: rest) load =
        .error .overflowError) ∨
    ((∀ rawEntry : JsonFields, raw = .dict rawEntry → ¬EntryAccepted files rawEntry) ∧
      ∃ message, planRawEntries queued available (uploaded files) (raw :: rest) load =
        .error (.valueError message)) := by
  cases raw with
  | dict rawEntry =>
    rw [planRawEntries]
    rcases entryPayload_cases h rawEntry with
      ⟨haccepted, file, hfile, hkey, hpayload⟩ | ⟨hnot, message, hmessage⟩
    · rw [hpayload]
      rcases options_cases rawEntry available.nodes.length with
        ⟨hfinite, hshards, htimeout⟩ | ⟨hinfinite, hraises⟩
      · left
        rw [hshards, htimeout]
        obtain ⟨task, htask⟩ : ∃ task : NodeId → WasmTask, task = fun node ↦
            ⟨entryUploadName rawEntry, file.payload, node, textField rawEntry "name",
              count (getField rawEntry "timeout_ms"), none⟩ :=
          ⟨_, rfl⟩
        obtain ⟨nodes, hlen, hall, heq⟩ := wasmShards_spec queued available task
          (shardCount rawEntry available.nodes.length) 0
          (shardCount rawEntry available.nodes.length) load
        refine ⟨rawEntry, (wasmShards queued available task
          (shardCount rawEntry available.nodes.length) 0
          (shardCount rawEntry available.nodes.length) load).2, _, rfl, haccepted, hfinite,
          ⟨rawEntry, textField rawEntry "name", count (getField rawEntry "timeout_ms"), file, nodes,
            rfl, entryText_iff.mpr rfl, fun n ↦ entryNumber_iff.symm, hfile,
            entryFile_iff.mpr hkey.symm, entryFans_iff.mpr hlen, hall, rfl⟩, ?_⟩
        rw [hlen]
        simp only [htask, Nat.zero_add] at heq
        rw [hkey, ← heq, htask]
        dsimp only [bind, Except.bind]
        cases planRawEntries queued available (uploaded files) rest _ <;> rfl
      · right
        left
        exact ⟨rawEntry, rfl, haccepted, hinfinite, hraises _ _⟩
    · right
      right
      rw [hmessage]
      refine ⟨?_, message, rfl⟩
      intro other hother
      cases hother
      exact hnot
  | _ =>
    right
    right
    refine ⟨?_, _, rfl⟩
    intro _ hraw
    cases hraw

/-- An entry that the loop passes. -/
def EntryRuns (files : List Upload) (raw : JsonValue) : Prop :=
  ∃ rawEntry, raw = .dict rawEntry ∧ EntryAccepted files rawEntry ∧ FiniteOptions rawEntry

/-- The loop comes to an entry with an infinite option. -/
def ReachesInfinite (files : List Upload) (tasks : List JsonValue) : Prop :=
  ∃ before rawEntry after, tasks = before ++ .dict rawEntry :: after ∧
    (∀ raw ∈ before, EntryRuns files raw) ∧ EntryAccepted files rawEntry ∧
    ¬FiniteOptions rawEntry

omit [AsciiFold] [PythonText] in
theorem map_eq_ok {α β : Type} {x : Raises α} {f : α → β} {b : β} :
    x.map f = .ok b ↔ ∃ a, x = .ok a ∧ f a = b := by
  cases x with
  | error e =>
    constructor
    · intro h
      cases h
    · rintro ⟨a, h, -⟩
      cases h
  | ok a =>
    constructor
    · intro h
      exact ⟨a, rfl, Except.ok.inj h⟩
    · rintro ⟨a', h, rfl⟩
      cases h
      rfl

omit [AsciiFold] [PythonText] in
theorem map_eq_error {α β : Type} {x : Raises α} {f : α → β} {e : Raised} :
    x.map f = .error e ↔ x = .error e := by
  cases x with
  | error e' =>
    constructor
    · intro h
      rw [Except.error.inj h]
    · intro h
      rw [Except.error.inj h]
      rfl
  | ok a =>
    constructor
    · intro h
      cases h
    · intro h
      cases h

theorem planRawEntries_ok (h : UploadsAccepted files) {tasks : List JsonValue} {load : NodeLoad}
    {planned : List WasmTask} {used : List String}
    (hplan : planRawEntries queued available (uploaded files) tasks load = .ok (planned, used)) :
    (∀ raw ∈ tasks, EntryRuns files raw) ∧
      (∀ key, key ∈ used ↔ ∃ rawEntry, .dict rawEntry ∈ tasks ∧ entryUploadName rawEntry = key) ∧
      ∃ groups, planned = groups.flatten ∧ List.Forall₂ (Fanned available files) tasks groups := by
  induction tasks generalizing load planned used with
  | nil =>
    cases hplan
    exact ⟨by simp, by simp, [], rfl, .nil⟩
  | cons raw rest ih =>
    rcases planRawEntries_cons queued available h raw rest load with
      ⟨rawEntry, load', group, hraw, haccepted, hfinite, hgroup, heq⟩ |
      ⟨_, _, _, _, heq⟩ | ⟨_, _, heq⟩
    · rw [heq] at hplan
      obtain ⟨⟨more, used'⟩, hrest, hout⟩ := map_eq_ok.mp hplan
      obtain ⟨hruns, hused, groups, hflat, hall⟩ := ih hrest
      cases hout
      refine ⟨?_, ?_, group :: groups, ?_, hall.cons hgroup⟩
      · intro x hx
        rcases List.mem_cons.mp hx with rfl | hx
        · exact ⟨rawEntry, hraw, haccepted, hfinite⟩
        · exact hruns x hx
      · intro key
        rw [List.mem_cons, hused]
        constructor
        · rintro (rfl | ⟨other, hmem, hkey⟩)
          · exact ⟨rawEntry, by simp [hraw], rfl⟩
          · exact ⟨other, List.mem_cons_of_mem _ hmem, hkey⟩
        · rintro ⟨other, hmem, hkey⟩
          rcases List.mem_cons.mp hmem with hother | hmem
          · rw [hraw] at hother
            cases hother
            exact Or.inl hkey.symm
          · exact Or.inr ⟨other, hmem, hkey⟩
      · rw [hflat, List.flatten_cons]
    · rw [heq] at hplan
      cases hplan
    · rw [heq] at hplan
      cases hplan

/-- A `ValueError` of the loop is about an entry. -/
theorem planRawEntries_valueError (h : UploadsAccepted files) {tasks : List JsonValue}
    {load : NodeLoad} {e : Raised}
    (hplan : planRawEntries queued available (uploaded files) tasks load = .error e)
    (hvalue : e.isValueError = true) :
    ∃ raw ∈ tasks, ∀ rawEntry : JsonFields, raw = .dict rawEntry →
      ¬EntryAccepted files rawEntry := by
  induction tasks generalizing load with
  | nil => cases hplan
  | cons raw rest ih =>
    rcases planRawEntries_cons queued available h raw rest load with
      ⟨_, load', group, _, _, _, _, heq⟩ | ⟨_, _, _, _, heq⟩ | ⟨hnot, _, heq⟩
    · rw [heq] at hplan
      obtain ⟨x, hx, hnot⟩ := ih (map_eq_error.mp hplan)
      exact ⟨x, List.mem_cons_of_mem _ hx, hnot⟩
    · rw [heq] at hplan
      cases Except.error.inj hplan
      cases hvalue
    · exact ⟨raw, List.mem_cons_self, hnot⟩

/-- Any other exception of the loop is an `OverflowError`, of the first entry that has an infinite
option. -/
theorem planRawEntries_escapes (queued : NodeId → Nat) (available : AvailableNodes)
    (h : UploadsAccepted files) (tasks : List JsonValue) (load : NodeLoad) :
    (∃ e : Raised, e.isValueError = false ∧
      planRawEntries queued available (uploaded files) tasks load = .error e) ↔
    ReachesInfinite files tasks := by
  induction tasks generalizing load with
  | nil =>
    constructor
    · rintro ⟨e, -, hplan⟩
      cases hplan
    · rintro ⟨before, _, after, hsplit, -⟩
      cases before <;> cases hsplit
  | cons raw rest ih =>
    rcases planRawEntries_cons queued available h raw rest load with
      ⟨rawEntry, load', group, hraw, haccepted, hfinite, hgroup, heq⟩ |
      ⟨rawEntry, hraw, haccepted, hinfinite, heq⟩ | ⟨hnot, message, heq⟩
    · rw [heq]
      simp only [map_eq_error]
      rw [ih]
      constructor
      · rintro ⟨before, entry, after, rfl, hbefore, hentry⟩
        refine ⟨raw :: before, entry, after, rfl, ?_, hentry⟩
        intro x hx
        rcases List.mem_cons.mp hx with rfl | hx
        · exact ⟨rawEntry, hraw, haccepted, hfinite⟩
        · exact hbefore x hx
      · rintro ⟨before, entry, after, hsplit, hbefore, haccepted', hinfinite⟩
        cases before with
        | nil =>
          have hhead := (List.cons.inj hsplit).1
          rw [hraw] at hhead
          cases hhead
          exact absurd hfinite hinfinite
        | cons first before =>
          exact ⟨before, entry, after, (List.cons.inj hsplit).2,
            fun x hx ↦ hbefore x (List.mem_cons_of_mem _ hx), haccepted', hinfinite⟩
    · rw [heq]
      refine iff_of_true ⟨_, rfl, rfl⟩ ⟨[], rawEntry, rest, ?_, by simp, haccepted, hinfinite⟩
      rw [hraw]
      rfl
    · rw [heq]
      apply iff_of_false
      · rintro ⟨e, hvalue, herror⟩
        cases Except.error.inj herror
        cases hvalue
      · rintro ⟨before, entry, after, hsplit, hbefore, haccepted, -⟩
        cases before with
        | nil => exact hnot entry (List.cons.inj hsplit).1 haccepted
        | cons first before =>
          obtain ⟨rawEntry, hfirst, haccepted', -⟩ := hbefore first List.mem_cons_self
          exact hnot rawEntry ((List.cons.inj hsplit).1.trans hfirst) haccepted'

end Loop

/-! ## Plans -/

section Plans

variable [PythonText] [AsciiFold] {queued : NodeId → Nat} {available : AvailableNodes}
  {manifest : JsonManifest} {files : List Upload}

/-- The manifests and uploads that belong together. -/
structure PlanAccepted (tasks : List JsonValue) (files : List Upload) : Prop where
  uploads : UploadsAccepted files
  entries : ∀ raw ∈ tasks, ∃ rawEntry, raw = .dict rawEntry ∧ EntryAccepted files rawEntry
  referenced : ∀ file ∈ files, ∃ rawEntry, .dict rawEntry ∈ tasks ∧ EntryFile rawEntry file.key

theorem planWasmManifest_refused (queued : NodeId → Nat) (available : AvailableNodes)
    (manifest : JsonManifest) (h : ¬UploadsAccepted files) :
    ∃ message, planWasmManifest queued available manifest files = .error (.valueError message) := by
  rcases collectWasmUploads_cases files with ⟨hok, -⟩ | ⟨-, message, heq⟩
  · exact absurd hok h
  · unfold planWasmManifest
    rw [heq]
    exact ⟨_, rfl⟩

/-- With accepted uploads, the outcome is that of the loop, or there are uploads without entry. -/
theorem planWasmManifest_accepted (queued : NodeId → Nat) (available : AvailableNodes)
    (manifest : JsonManifest) (h : UploadsAccepted files) :
    (∃ e, planRawEntries queued available (uploaded files) manifest.tasks (fun _ ↦ 0) = .error e ∧
      planWasmManifest queued available manifest files = .error e) ∨
    ∃ planned used,
      planRawEntries queued available (uploaded files) manifest.tasks (fun _ ↦ 0) =
        .ok (planned, used) ∧
      (((∀ file ∈ files, file.key ∈ used) ∧ planned ≠ [] ∧
          planWasmManifest queued available manifest files = .ok planned) ∨
        (¬((∀ file ∈ files, file.key ∈ used) ∧ planned ≠ []) ∧ ∃ message,
          planWasmManifest queued available manifest files = .error (.valueError message))) := by
  have hcollect : collectWasmUploads files = .ok (uploaded files) := by
    rcases collectWasmUploads_cases files with ⟨-, heq⟩ | ⟨hnot, -⟩
    · exact heq
    · exact absurd h hnot
  unfold planWasmManifest
  rw [hcollect]
  dsimp only [Except.mapError, bind, Except.bind]
  cases hloop : planRawEntries queued available (uploaded files) manifest.tasks fun _ ↦ 0 with
  | error e => exact Or.inl ⟨e, rfl, rfl⟩
  | ok result =>
    obtain ⟨planned, used⟩ := result
    right
    refine ⟨planned, used, rfl, ?_⟩
    dsimp only
    have hunused : (((uploaded files).map Prod.fst).filter (· ∉ used)).insertionSort (· ≤ ·) = [] ↔
        ∀ file ∈ files, file.key ∈ used := by
      rw [← List.length_eq_zero_iff, List.length_insertionSort, List.length_eq_zero_iff,
        List.filter_eq_nil_iff, uploaded_keys]
      simp
    by_cases hused : ∀ file ∈ files, file.key ∈ used
    · rw [if_neg (not_not.mpr (hunused.mpr hused))]
      by_cases hplanned : planned = []
      · right
        rw [if_pos hplanned]
        exact ⟨fun hboth ↦ hboth.2 hplanned, _, rfl⟩
      · left
        rw [if_neg hplanned]
        exact ⟨hused, hplanned, rfl⟩
    · right
      rw [if_pos fun hnil ↦ hused (hunused.mp hnil)]
      exact ⟨fun hboth ↦ hused hboth.1, _, rfl⟩

/-- The plan is the manifest fanned out: when nothing but a `ValueError` is raised, the manifests
and uploads that belong together are planned, entry after entry. -/
theorem planWasmManifest_fans_out (queued : NodeId → Nat) (available : AvailableNodes)
    (manifest : JsonManifest) (files : List Upload)
    (hvalue : ∀ e, planWasmManifest queued available manifest files = .error e →
      e.isValueError = true) :
    ((∃ planned, planWasmManifest queued available manifest files = .ok planned) ↔
      PlanAccepted manifest.tasks files) ∧
    ∀ planned, planWasmManifest queued available manifest files = .ok planned →
      ∃ groups, planned = groups.flatten ∧
        List.Forall₂ (Fanned available files) manifest.tasks groups := by
  by_cases h : UploadsAccepted files
  · rcases planWasmManifest_accepted queued available manifest h with
      ⟨e, hloop, heq⟩ | ⟨planned, used, hloop, hout⟩
    · rw [heq]
      refine ⟨iff_of_false (by simp) ?_, by simp⟩
      intro haccepted
      obtain ⟨raw, hraw, hnot⟩ := planRawEntries_valueError h hloop (hvalue e heq)
      obtain ⟨rawEntry, hentry, haccepted'⟩ := haccepted.entries raw hraw
      exact hnot rawEntry hentry haccepted'
    · obtain ⟨hruns, hkeys, groups, hflat, hall⟩ := planRawEntries_ok h hloop
      have hused : ∀ key, key ∈ used ↔ ∃ rawEntry : JsonFields,
          .dict rawEntry ∈ manifest.tasks ∧ EntryFile rawEntry key := by
        simpa only [entryFile_iff] using hkeys
      have hentries : ∀ raw ∈ manifest.tasks, ∃ rawEntry, raw = .dict rawEntry ∧
          EntryAccepted files rawEntry := by
        intro raw hraw
        obtain ⟨rawEntry, hentry, haccepted, -⟩ := hruns raw hraw
        exact ⟨rawEntry, hentry, haccepted⟩
      rcases hout with ⟨hreferenced, -, heq⟩ | ⟨hnot, message, heq⟩
      · rw [heq]
        constructor
        · exact iff_of_true ⟨planned, rfl⟩
            ⟨h, hentries, fun file hfile ↦ (hused file.key).mp (hreferenced file hfile)⟩
        · intro planned' hplanned
          cases hplanned
          exact ⟨groups, hflat, hall⟩
      · rw [heq]
        refine ⟨iff_of_false (by simp) ?_, by simp⟩
        intro haccepted
        apply hnot
        refine ⟨fun file hfile ↦ (hused file.key).mpr (haccepted.referenced file hfile), ?_⟩
        -- the first entry has a task
        intro hnil
        cases htasks : manifest.tasks with
        | nil => exact manifest.tasks_ne htasks
        | cons raw rest =>
          rw [htasks] at hall
          cases hall with
          | cons hfanned _ =>
            have hgroup := hfanned.ne_nil
            rw [hflat, List.flatten_cons, List.append_eq_nil_iff] at hnil
            exact hgroup hnil.1
  · obtain ⟨message, heq⟩ := planWasmManifest_refused queued available manifest h
    rw [heq]
    exact ⟨iff_of_false (by simp) fun haccepted ↦ h haccepted.uploads, by simp⟩

/-- The uploaded manifests for which the planner raises no more than a `ValueError`: documents that
are not nested too deep and are objects if they are JSON at all, with no infinite option in an
entry that is looked at. -/
def ManifestHandled (depth : Nat) (rawManifest : List UInt8) (files : List Upload) : Prop :=
  rawManifest = [] ∨
  match jsonLoads depth rawManifest with
  | .error e => e ≠ .recursionError
  | .ok (.dict fields) => ∀ tasks, getField fields "tasks" = .list tasks →
      UploadsAccepted files → ¬ReachesInfinite files tasks
  | .ok _ => False

/-- The planner escapes its `except ValueError` exactly for an infinite option that it reaches. -/
theorem planWasmManifest_escapes :
    (∃ e : Raised, e.isValueError = false ∧
      planWasmManifest queued available manifest files = .error e) ↔
    UploadsAccepted files ∧ ReachesInfinite files manifest.tasks := by
  by_cases h : UploadsAccepted files
  · have hloops := planRawEntries_escapes queued available h manifest.tasks fun _ ↦ 0
    rcases planWasmManifest_accepted queued available manifest h with
      ⟨e, hloop, heq⟩ | ⟨planned, used, hloop, hout⟩
    · rw [heq]
      rw [hloop] at hloops
      constructor
      · rintro ⟨e', he, herror⟩
        cases Except.error.inj herror
        exact ⟨h, hloops.mp ⟨e, he, rfl⟩⟩
      · rintro ⟨-, hreach⟩
        obtain ⟨e', he, herror⟩ := hloops.mpr hreach
        cases Except.error.inj herror
        exact ⟨e, he, rfl⟩
    · rw [hloop] at hloops
      have hnot : ¬ReachesInfinite files manifest.tasks := by
        rw [← hloops]
        simp
      apply iff_of_false
      · rintro ⟨e, he, herror⟩
        rcases hout with ⟨-, -, heq⟩ | ⟨-, message, heq⟩
        · rw [heq] at herror
          cases herror
        · rw [heq] at herror
          cases Except.error.inj herror
          cases he
      · exact fun hboth ↦ hnot hboth.2
  · obtain ⟨message, heq⟩ := planWasmManifest_refused queued available manifest h
    rw [heq]
    apply iff_of_false
    · rintro ⟨e, he, herror⟩
      cases Except.error.inj herror
      cases he
    · exact fun hboth ↦ h hboth.1

/-- A result, or an exception that `start` answers with status 400. -/
def Handled {α : Type} (x : Raises α) : Prop :=
  (∃ a, x = .ok a) ∨ ∃ e, x = .error e ∧ e.isValueError = true

omit [PythonText] [AsciiFold] in
/-- Whatever is not handled escapes. -/
theorem handled_iff {α : Type} {x : Raises α} :
    Handled x ↔ ¬∃ e : Raised, e.isValueError = false ∧ x = .error e := by
  unfold Handled
  cases x with
  | ok a => simp
  | error e => cases hvalue : e.isValueError <;> simp [hvalue]

omit [PythonText] [AsciiFold] in
theorem readManifestUpload_dict {depth : Nat} {rawManifest : List UInt8} {fields : JsonFields}
    (hne : rawManifest ≠ []) (hloads : jsonLoads depth rawManifest = .ok (.dict fields)) :
    (∃ manifest : JsonManifest, readManifestUpload depth rawManifest = .ok manifest ∧
      getField fields "tasks" = .list manifest.tasks) ∨
    ((∀ tasks, getField fields "tasks" = .list tasks → tasks = []) ∧
      ∃ message, readManifestUpload depth rawManifest = .error (.valueError message)) := by
  unfold readManifestUpload
  rw [if_neg hne, hloads]
  dsimp only
  split
  · rename_i task tasks htasks
    exact Or.inl ⟨_, rfl, htasks⟩
  · rename_i hnot
    refine Or.inr ⟨?_, _, rfl⟩
    intro tasks htasks
    cases tasks with
    | nil => rfl
    | cons task tasks => exact absurd htasks (hnot task tasks)

/-- An uploaded manifest is planned or refused with a `ValueError` exactly when it is one of the
handled ones. -/
theorem planUpload_handled_iff (queued : NodeId → Nat) (available : AvailableNodes) (depth : Nat)
    (rawManifest : List UInt8) (files : List Upload) :
    Handled (planUpload queued available depth rawManifest files) ↔
      ManifestHandled depth rawManifest files := by
  rw [handled_iff]
  unfold planUpload ManifestHandled
  by_cases hempty : rawManifest = []
  · unfold readManifestUpload
    rw [if_pos hempty]
    apply iff_of_true
    · rintro ⟨e, he, herror⟩
      cases Except.error.inj herror
      cases he
    · exact Or.inl hempty
  rw [or_iff_right hempty]
  cases hloads : jsonLoads depth rawManifest with
  | error e =>
    have hread : readManifestUpload depth rawManifest = .error (loadsRaises e) := by
      unfold readManifestUpload
      rw [if_neg hempty, hloads]
    have hfuel : e ≠ .outOfFuel := by
      rintro rfl
      exact jsonLoads_ne_outOfFuel depth rawManifest hloads
    rw [hread]
    dsimp only [bind, Except.bind]
    cases e with
    | recursionError =>
      refine iff_of_false ?_ (by simp)
      exact not_not.mpr ⟨.recursionError, rfl, rfl⟩
    | outOfFuel => exact absurd rfl hfuel
    | _ =>
      refine iff_of_true ?_ (by simp)
      rintro ⟨e, he, herror⟩
      cases Except.error.inj herror
      cases he
  | ok value =>
    cases value with
    | dict fields =>
      dsimp only
      rcases readManifestUpload_dict hempty hloads with
        ⟨manifest, hread, htasks⟩ | ⟨hnil, message, hread⟩
      · rw [hread]
        dsimp only [bind, Except.bind]
        rw [planWasmManifest_escapes]
        constructor
        · intro hnot tasks hother haccepted hreach
          rw [htasks] at hother
          cases hother
          exact hnot ⟨haccepted, hreach⟩
        · rintro h ⟨haccepted, hreach⟩
          exact h manifest.tasks htasks haccepted hreach
      · rw [hread]
        dsimp only [bind, Except.bind]
        apply iff_of_true
        · rintro ⟨e, he, herror⟩
          cases Except.error.inj herror
          cases he
        · rintro tasks htasks - ⟨before, rawEntry, after, hsplit, -⟩
          rw [hnil tasks htasks] at hsplit
          cases before <;> cases hsplit
    | _ =>
      have hread : readManifestUpload depth rawManifest = .error .attributeError := by
        unfold readManifestUpload
        rw [if_neg hempty, hloads]
      rw [hread]
      refine iff_of_false ?_ (by simp)
      exact not_not.mpr ⟨.attributeError, rfl, rfl⟩

end Plans

/-! ## Samples -/

namespace Sample

/-- The tables of Python, as far as ASCII text shows them. -/
scoped instance asciiText : PythonText where
  decimal c := if isDigit c then some (c.val - '0'.toNat) else none
  isprintable _ := false
  floatRepr _ := "0.0"

def twoNodes : AvailableNodes := ⟨[name "node-1" node1_valid, name "node-2"], by decide⟩

/-- A task that is split over at most three nodes. -/
def splitEntry : JsonFields :=
  [(points "name", .str (points "crunch")), (points "wasm", .str (points "tasks/crunch.wasm")),
    (points "split", .dict [(points "strategy", .str (points "data_parallel")),
      (points "chunk", .int 3)])]

def splitManifest : JsonManifest where
  fields := [(points "tasks", .list [.dict splitEntry])]
  tasks := [.dict splitEntry]
  tasks_eq := rfl
  tasks_ne := by simp

/-- The plan of that manifest on the two nodes. -/
def splitPlan : List WasmTask :=
  [⟨"crunch.wasm", [1], name "node-1", points "crunch", none, some (0, 2)⟩,
    ⟨"crunch.wasm", [1], name "node-2", points "crunch", none, some (1, 2)⟩]

/-- A task whose timeout is an infinite float. -/
def infiniteManifest : List UInt8 :=
  utf8 ("\x7b\"tasks\":[\x7b\"name\":\"a\",\"wasm\":\"a.wasm\",\"timeout_ms\":Infinity\x7d]\x7d")

end Sample

open Sample in
theorem planWasmManifest_fans_out_split :
    PlanAccepted splitManifest.tasks [⟨"crunch.wasm", [1]⟩] ∧
      ∃ groups, splitPlan = groups.flatten ∧
        List.Forall₂ (Fanned twoNodes [⟨"crunch.wasm", [1]⟩]) splitManifest.tasks groups := by
  have hplan : planWasmManifest (fun _ ↦ 0) twoNodes splitManifest [⟨"crunch.wasm", [1]⟩] =
      .ok splitPlan := by
    decide +kernel
  have hfans := planWasmManifest_fans_out (fun _ ↦ 0) twoNodes splitManifest
    [⟨"crunch.wasm", [1]⟩] (by
      rw [hplan]
      intro e he
      cases he)
  exact ⟨hfans.1.mp ⟨splitPlan, hplan⟩, hfans.2 splitPlan hplan⟩

open Sample in
/-- A list is no manifest, and an infinite timeout no number. -/
theorem manifests_escape :
    ¬Handled (planUpload (fun _ ↦ 0) twoNodes 10 (utf8 "[]") [⟨"a.wasm", [1]⟩]) ∧
      ¬Handled (planUpload (fun _ ↦ 0) twoNodes 10 infiniteManifest [⟨"a.wasm", [1]⟩]) := by
  constructor
  · have hplan : planUpload (fun _ ↦ 0) twoNodes 10 (utf8 "[]") [⟨"a.wasm", [1]⟩] =
        .error .attributeError := by
      decide +kernel
    rw [handled_iff, hplan]
    exact not_not.mpr ⟨.attributeError, rfl, rfl⟩
  · have hplan : planUpload (fun _ ↦ 0) twoNodes 10 infiniteManifest [⟨"a.wasm", [1]⟩] =
        .error .overflowError := by
      decide +kernel
    rw [handled_iff, hplan]
    exact not_not.mpr ⟨.overflowError, rfl, rfl⟩

end TandemAio
