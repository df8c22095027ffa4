import TandemAio.Reasoning.PythonValues
import TandemAio.Run
import TandemAio.Start

/-!
# Starting a build

When the server accepts what `tandem build` and `tandem start` send.
-/

namespace TandemAio

section Lists

variable {α β : Type}

theorem exists_of_mapM {f : α → Option β} {l : List α} {result : List β}
    (h : l.mapM f = some result) : ∀ a ∈ l, ∃ b, f a = some b := by
  induction l generalizing result with
  | nil =>
    intro a ha
    cases ha
  | cons a l ih =>
    rw [List.mapM_cons] at h
    obtain ⟨b, hb, h⟩ := Option.bind_eq_some_iff.mp h
    obtain ⟨rest, hrest, -⟩ := Option.bind_eq_some_iff.mp h
    intro x hx
    rcases List.mem_cons.mp hx with rfl | hx
    · exact ⟨b, hb⟩
    · exact ih hrest x hx

/-- Under distinct keys every value is found. -/
theorem lookup_map_of_nodup {key : α → String} (value : α → β) {l : List α}
    (h : (l.map key).Nodup) {x : α} (hx : x ∈ l) :
    (l.map fun a ↦ (key a, value a)).lookup (key x) = some (value x) := by
  induction l with
  | nil => cases hx
  | cons a l ih =>
    obtain ⟨hnot, hnodup⟩ := List.nodup_cons.mp h
    rw [List.map_cons, List.lookup_cons]
    rcases List.mem_cons.mp hx with rfl | hx
    · rw [beq_self_eq_true]
    · have hne : (key x == key a) = false := by
        rw [beq_eq_false_iff_ne]
        intro heq
        exact hnot (List.mem_map.mpr ⟨x, hx, heq⟩)
      rw [hne]
      exact ih hnodup hx

end Lists

section Builds

variable [AsciiFold] {tasks : List DiscoveredTask} {task : DiscoveredTask}

/-- The name that the server keeps the upload of a task under. -/
def DiscoveredTask.uploadKey (task : DiscoveredTask) : String :=
  secureFilename (task.exportName ++ ".wasm")

/-- The options of a task are finite numbers, if they are numbers. -/
def DiscoveredTask.FiniteOptions (task : DiscoveredTask) : Prop :=
  task.kind ≠ .compute (some .infinite) ∧ task.kind ≠ .split (some .infinite)

/-- What the server asks of a build: file names that stay apart and keep their suffix, options
that are no infinite floats, and binaries whose length fits four bytes. -/
structure Startable (tasks : List DiscoveredTask) : Prop where
  suffix : ∀ task ∈ tasks, ".wasm".toList <:+ task.uploadKey.toList
  distinct : (tasks.map DiscoveredTask.uploadKey).Nodup
  options : ∀ task ∈ tasks, task.FiniteOptions
  size : ∀ task ∈ tasks, task.wasm.length < 2 ^ 32

/-! ## What the CLI sends -/

/-- The upload of a task. -/
def DiscoveredTask.upload (task : DiscoveredTask) : Upload :=
  ⟨pathName task.wasmPath, frame task.wasm startProject.emptyInput⟩

omit [AsciiFold] in
theorem framedBlob_ok {input payload : List UInt8} :
    startProject.framedBlob task.wasm input = some payload ↔
      task.wasm.length < 2 ^ 32 ∧ payload = frame task.wasm input := by
  have hmem : startProject.framedBlob ∈ payloadEncoders := by
    simp [payloadEncoders]
  constructor
  · intro h
    have hsize : task.wasm.length < 2 ^ 32 := by
      by_contra hlarge
      have hnone : toBytesLittle task.wasm.length = none := if_neg hlarge
      unfold startProject.framedBlob at h
      rw [hnone] at h
      cases h
    refine ⟨hsize, ?_⟩
    rw [encoder_frame hmem hsize] at h
    exact (Option.some.inj h).symm
  · rintro ⟨hsize, rfl⟩
    exact encoder_frame hmem hsize

omit [AsciiFold] in
/-- The upload of every task is sent, unless one of them is too long to be framed. -/
theorem wasmFiles_ok {files : List Upload} :
    startProject.wasmFiles tasks = some files ↔
      (∀ task ∈ tasks, task.wasm.length < 2 ^ 32) ∧
        files = (describeTarget tasks).map DiscoveredTask.upload := by
  have hmap : (∀ task ∈ tasks, task.wasm.length < 2 ^ 32) →
      startProject.wasmFiles tasks = some ((describeTarget tasks).map DiscoveredTask.upload) := by
    intro hsize
    apply Reasoning.mapM_eq_some
    intro task htask
    rw [framedBlob_ok.mpr ⟨hsize task (mem_describeTarget.mp htask), rfl⟩]
    rfl
  constructor
  · intro h
    have hsize : ∀ task ∈ tasks, task.wasm.length < 2 ^ 32 := by
      intro task htask
      obtain ⟨upload, hupload⟩ := exists_of_mapM h task (mem_describeTarget.mpr htask)
      obtain ⟨payload, hpayload, -⟩ := Option.bind_eq_some_iff.mp hupload
      exact (framedBlob_ok.mp hpayload).1
    rw [hmap hsize] at h
    exact ⟨hsize, (Option.some.inj h).symm⟩
  · rintro ⟨hsize, rfl⟩
    exact hmap hsize

theorem upload_key (h : IsIdentifier task.exportName) : task.upload.key = task.uploadKey := by
  unfold DiscoveredTask.upload Upload.key DiscoveredTask.wasmPath DiscoveredTask.uploadKey
  rw [h.pathName_wasmPath, h.pathName_wasm]

theorem entry_uploadName (h : IsIdentifier task.exportName) :
    task.entry.uploadName = task.uploadKey := by
  unfold ManifestEntry.uploadName DiscoveredTask.entry DiscoveredTask.wasmPath
    DiscoveredTask.uploadKey
  rw [strStrip_wasmPath, h.pathName_wasmPath]

omit [AsciiFold] in
theorem upload_nonempty : task.upload.payload ≠ [] := by
  unfold DiscoveredTask.upload frame tndm
  simp

/-! ## What the server asks -/

/-- The uploads of a build as the server collects them. -/
theorem collect_uploads (hident : ∀ task ∈ tasks, IsIdentifier task.exportName)
    {uploads : List (String × List UInt8)} :
    collectWasmUploads ((describeTarget tasks).map DiscoveredTask.upload) = .ok uploads ↔
      tasks ≠ [] ∧ (∀ task ∈ tasks, ".wasm".toList <:+ task.uploadKey.toList) ∧
        (tasks.map DiscoveredTask.uploadKey).Nodup ∧
        uploads = (describeTarget tasks).map fun task ↦
          (task.uploadKey, frame task.wasm startProject.emptyInput) := by
  have hkey : ∀ task ∈ describeTarget tasks, task.upload.key = task.uploadKey :=
    fun task htask ↦ upload_key (hident task (mem_describeTarget.mp htask))
  have hkeys : ((describeTarget tasks).map DiscoveredTask.upload).map Upload.key =
      (describeTarget tasks).map DiscoveredTask.uploadKey := by
    rw [List.map_map]
    exact List.map_congr_left hkey
  have hnodup : ((describeTarget tasks).map DiscoveredTask.uploadKey).Nodup ↔
      (tasks.map DiscoveredTask.uploadKey).Nodup :=
    ((describeTarget_perm tasks).map _).nodup_iff
  have hresult : (((describeTarget tasks).map DiscoveredTask.upload).map
      fun file ↦ (file.key, file.payload)) = (describeTarget tasks).map fun task ↦
        (task.uploadKey, frame task.wasm startProject.emptyInput) := by
    rw [List.map_map]
    exact List.map_congr_left fun task htask ↦ Prod.ext (hkey task htask) rfl
  have hempty : (describeTarget tasks).map DiscoveredTask.upload = [] ↔ tasks = [] := by
    rw [List.map_eq_nil_iff]
    constructor
    · intro h
      exact (h ▸ describeTarget_perm tasks).symm.eq_nil
    · rintro rfl
      rfl
  rw [collectWasmUploads_ok, hkeys, hnodup, hresult, Ne, hempty]
  constructor
  · rintro ⟨hne, hall, hdistinct, rfl⟩
    refine ⟨hne, fun task htask ↦ ?_, hdistinct, rfl⟩
    have hmem : task.upload ∈ (describeTarget tasks).map DiscoveredTask.upload :=
      List.mem_map_of_mem (mem_describeTarget.mpr htask)
    rw [← upload_key (hident task htask)]
    exact (hall _ hmem).1
  · rintro ⟨hne, hsuffix, hdistinct, rfl⟩
    refine ⟨hne, fun file hfile ↦ ?_, hdistinct, rfl⟩
    obtain ⟨task, htask, rfl⟩ := List.mem_map.mp hfile
    rw [hkey task htask]
    exact ⟨hsuffix task (mem_describeTarget.mp htask), upload_nonempty⟩

omit [AsciiFold] in
/-- The options of a task are read without an exception exactly when they are finite. -/
theorem finiteOptions_iff (available : AvailableNodes) :
    task.FiniteOptions ↔ (∃ n, plannedWasmShards task.entry available = .ok n) ∧
      task.entry.timeoutMs ≠ some .infinite := by
  have hstrategy : lower (strStrip "data_parallel") = "data_parallel" := by decide
  unfold DiscoveredTask.FiniteOptions
  cases hkind : task.kind with
  | compute timeoutMs =>
    have hshards : ∃ n, plannedWasmShards task.entry available = .ok n := by
      apply plannedWasmShards_ok
      intro hint hsplit
      simp [DiscoveredTask.entry, hkind, splitHint] at hsplit
    have htimeout : task.entry.timeoutMs = timeoutMs := by
      simp [DiscoveredTask.entry, hkind]
    rw [htimeout]
    simp [hshards]
  | split chunk =>
    have htimeout : task.entry.timeoutMs = none := by
      simp [DiscoveredTask.entry, hkind]
    have hsplit : task.entry.split = some ⟨"data_parallel", chunk, none⟩ := by
      simp [DiscoveredTask.entry, hkind, splitHint]
    rw [htimeout]
    constructor
    · rintro ⟨-, hchunk⟩
      refine ⟨plannedWasmShards_ok ?_, by simp⟩
      intro hint hhint
      rw [hsplit] at hhint
      cases hhint
      cases chunk with
      | none => simp
      | some value => simpa using hchunk
    · rintro ⟨⟨n, hn⟩, -⟩
      refine ⟨by simp, ?_⟩
      rintro hchunk
      cases hchunk
      exact plannedWasmShards_infinite hsplit hstrategy rfl n hn

/-! ## Every build -/

/-- The plan of a build that runs each task from its own bytes. -/
structure OwnPlan (tasks : List DiscoveredTask) (planned : List PlannedTask) : Prop where
  own : ∀ p ∈ planned, ∃ task ∈ tasks, p.taskName = task.exportName ∧
    startProject.framedBlob task.wasm startProject.emptyInput = some p.payload
  all : ∀ task ∈ tasks, ∃ p ∈ planned, p.taskName = task.exportName

theorem Startable.runnable (h : Startable tasks) (available : AvailableNodes)
    (hident : ∀ task ∈ tasks, IsIdentifier task.exportName) {task : DiscoveredTask}
    (htask : task ∈ tasks) :
    ((describeTarget tasks).map fun task ↦
      (task.uploadKey, frame task.wasm startProject.emptyInput)).lookup task.entry.uploadName =
        some (frame task.wasm startProject.emptyInput) ∧
    task.entry.Runnable ((describeTarget tasks).map fun task ↦
      (task.uploadKey, frame task.wasm startProject.emptyInput)) available := by
  have hname := hident task htask
  have hnodup : ((describeTarget tasks).map DiscoveredTask.uploadKey).Nodup :=
    ((describeTarget_perm tasks).map _).nodup_iff.mpr h.distinct
  have hlookup := lookup_map_of_nodup (fun task : DiscoveredTask ↦
    frame task.wasm startProject.emptyInput) hnodup (mem_describeTarget.mpr htask)
  obtain ⟨hshards, htimeout⟩ := (finiteOptions_iff available).mp (h.options task htask)
  have hupload := entry_uploadName hname
  refine ⟨by rw [hupload]; exact hlookup, ?_, ?_, ?_, ?_, hshards, htimeout⟩
  · rw [show task.entry.name = task.exportName from rfl, hname.strStrip_eq]
    exact hname.1
  · apply strStrip_ne_empty
    exact ⟨'t', by simp [DiscoveredTask.entry, DiscoveredTask.wasmPath, String.toList_append],
      by decide⟩
  · rw [hupload]
    intro hempty
    have hsuffix := h.suffix task htask
    rw [hempty] at hsuffix
    revert hsuffix
    decide
  · rw [hupload]
    exact ⟨_, hlookup⟩

/-- The server plans a build, each task from its own bytes, exactly when the file names stay
apart, and no option or binary is out of bounds. -/
theorem build_planned_iff (queued : NodeId → Nat) (available : AvailableNodes)
    (hne : tasks ≠ []) (hident : ∀ task ∈ tasks, IsIdentifier task.exportName) :
    (∃ files planned, startProject.wasmFiles tasks = some files ∧
      planWasmTasks queued available (buildManifest tasks) files = .ok planned ∧
        OwnPlan tasks planned) ↔ Startable tasks := by
  constructor
  · rintro ⟨files, planned, hfiles, hplan, -⟩
    obtain ⟨hsize, rfl⟩ := wasmFiles_ok.mp hfiles
    obtain ⟨uploads, used, huploads, hentries, -, -⟩ := planWasmTasks_ok.mp hplan
    obtain ⟨-, hsuffix, hnodup, rfl⟩ := (collect_uploads hident).mp huploads
    obtain ⟨-, hrunnable, -, -⟩ := planEntries_spec hentries
    refine ⟨hsuffix, hnodup, fun task htask ↦ ?_, hsize⟩
    have hentry : task.entry ∈ buildManifest tasks :=
      List.mem_map_of_mem (mem_describeTarget.mpr htask)
    have hrun := hrunnable task.entry hentry
    exact (finiteOptions_iff available).mpr ⟨hrun.shards, hrun.timeout⟩
  · intro h
    have huploads := (collect_uploads hident).mpr ⟨hne, h.suffix, h.distinct, rfl⟩
    have hentry : ∀ e ∈ buildManifest tasks, ∃ task ∈ tasks, e = task.entry := by
      intro e he
      obtain ⟨task, htask, rfl⟩ := List.mem_map.mp he
      exact ⟨task, mem_describeTarget.mp htask, rfl⟩
    have hrunnable : ∀ e ∈ buildManifest tasks, e.Runnable ((describeTarget tasks).map fun task ↦
        (task.uploadKey, frame task.wasm startProject.emptyInput)) available := by
      intro e he
      obtain ⟨task, htask, rfl⟩ := hentry e he
      exact (h.runnable available hident htask).2
    obtain ⟨⟨planned, used⟩, hplanned⟩ := planEntries_total queued (fun _ ↦ 0) hrunnable
    obtain ⟨hused, -, hof, hall⟩ := planEntries_spec hplanned
    have hown : OwnPlan tasks planned := by
      constructor
      · intro p hp
        obtain ⟨e, he, hpe⟩ := hof p hp
        obtain ⟨task, htask, rfl⟩ := hentry e he
        have hpayload := hpe.payload
        rw [(h.runnable available hident htask).1] at hpayload
        refine ⟨task, htask, hpe.taskName.trans (hident task htask).strStrip_eq, ?_⟩
        rw [← hpayload]
        exact framedBlob_ok.mpr ⟨h.size task htask, rfl⟩
      · intro task htask
        obtain ⟨p, hp, hpe⟩ := hall task.entry
          (List.mem_map_of_mem (mem_describeTarget.mpr htask))
        exact ⟨p, hp, hpe.taskName.trans (hident task htask).strStrip_eq⟩
    refine ⟨_, planned, wasmFiles_ok.mpr ⟨h.size, rfl⟩, ?_, hown⟩
    apply planWasmTasks_ok.mpr
    refine ⟨_, used, huploads, hplanned, ?_, ?_⟩
    · -- the upload of every task is the one its entry asks for
      intro upload hupload
      obtain ⟨task, htask, rfl⟩ := List.mem_map.mp hupload
      rw [hused]
      refine List.mem_map.mpr ⟨task.entry, List.mem_map_of_mem htask, ?_⟩
      exact entry_uploadName (hident task (mem_describeTarget.mp htask))
    · obtain ⟨task, htask⟩ := List.exists_mem_of_ne_nil _ hne
      obtain ⟨p, hp, -⟩ := hown.all task htask
      exact List.ne_nil_of_mem hp

/-! ## ASCII names -/

/-- A name without its leading underscores. -/
def bareName (name : String) : List Char := name.toList.dropWhile (· == '_')

theorem uploadKey_ascii (hident : IsIdentifier task.exportName)
    (hascii : ∀ c ∈ task.exportName.toList, c.toNat < 128)
    (hletter : ∃ c ∈ task.exportName.toList, c ≠ '_') :
    task.uploadKey = String.ofList (bareName task.exportName ++ ".wasm".toList) := by
  have hchars : ∀ c ∈ task.exportName.toList, dotOrUnderscore c = (c == '_') := by
    intro c hc
    have hdot := (identifierChar_props (hident.2 c hc)).2.1
    simp [dotOrUnderscore, hdot]
  have hdrop : task.exportName.toList.dropWhile dotOrUnderscore = bareName task.exportName := by
    unfold bareName
    have hcongr : ∀ l : List Char, (∀ c ∈ l, dotOrUnderscore c = (c == '_')) →
        l.dropWhile dotOrUnderscore = l.dropWhile (· == '_') := by
      intro l hl
      induction l with
      | nil => rfl
      | cons c l ih =>
        rw [List.dropWhile_cons, List.dropWhile_cons, hl c List.mem_cons_self,
          ih fun d hd ↦ hl d (List.mem_cons_of_mem c hd)]
    exact hcongr _ hchars
  have hne : task.exportName.toList.dropWhile dotOrUnderscore ≠ [] := by
    obtain ⟨c, hc, hnot⟩ := hletter
    intro hnil
    have hall := List.dropWhile_eq_nil_iff.mp hnil c hc
    rw [hchars c hc] at hall
    exact hnot (by simpa using hall)
  unfold DiscoveredTask.uploadKey
  rw [secureFilename_ascii hident hascii, List.dropWhile_append, if_neg (by simpa using hne), hdrop]

/-- Projects whose names are ASCII, with something behind their leading underscores, start
exactly as far as these names stay apart without the underscores. -/
theorem startable_ascii (hident : ∀ task ∈ tasks, IsIdentifier task.exportName)
    (hascii : ∀ task ∈ tasks, ∀ c ∈ task.exportName.toList, c.toNat < 128)
    (hletter : ∀ task ∈ tasks, ∃ c ∈ task.exportName.toList, c ≠ '_')
    (hdistinct : (tasks.map fun task ↦ bareName task.exportName).Nodup)
    (hoptions : ∀ task ∈ tasks, task.FiniteOptions)
    (hsize : ∀ task ∈ tasks, task.wasm.length < 2 ^ 32) : Startable tasks := by
  have hkey : ∀ task ∈ tasks,
      task.uploadKey = String.ofList (bareName task.exportName ++ ".wasm".toList) :=
    fun task htask ↦ uploadKey_ascii (hident task htask) (hascii task htask) (hletter task htask)
  refine ⟨fun task htask ↦ ?_, ?_, hoptions, hsize⟩
  · have hlist : task.uploadKey.toList = bareName task.exportName ++ ".wasm".toList := by
      rw [hkey task htask, String.toList_ofList]
    rw [hlist]
    exact List.suffix_append _ _
  · rw [List.map_congr_left hkey]
    have hinj : Function.Injective fun name : List Char ↦ String.ofList (name ++ ".wasm".toList) := by
      intro a b h
      exact List.append_cancel_right (String.ofList_injective h)
    have hmap := hdistinct.map hinj
    rw [List.map_map] at hmap
    exact hmap

end Builds

/-! ## Two names that collide -/

namespace Sample

/-- Unicode decomposition, as far as ASCII text shows it. -/
scoped instance asciiFold : AsciiFold where
  fold c := if c.toNat < 128 then [c] else []
  fold_ascii c h := if_pos h
  ascii_of_fold c d hd := by
    split at hd
    · rename_i hc
      rw [List.mem_singleton.mp hd]
      exact hc
    · cases hd

def computeTask (exportName : String) (wasm : List UInt8) : DiscoveredTask where
  exportName := exportName
  kind := .compute (some (.int 50))
  qualname := exportName
  function := some ("app", exportName)
  wasm := wasm

def fooTask : DiscoveredTask := computeTask "foo" [1]
def underscoreFooTask : DiscoveredTask := computeTask "_foo" [2]

theorem node1_valid : "node-1" ≠ "" ∧ "node-1".toList.all idChar = true := by decide

def oneNode : AvailableNodes := ⟨[name "node-1" node1_valid], by decide⟩

instance (s : String) : Decidable (IsIdentifier s) :=
  decidable_of_iff (s ≠ "" ∧ s.toList.all identifierChar = true)
    (and_congr_right fun _ ↦ List.all_eq_true)

end Sample

open Sample in
/-- The uploads of `foo` and `_foo` are both kept as `foo.wasm`. -/
theorem underscore_names_collide :
    (∀ task ∈ [fooTask, underscoreFooTask], IsIdentifier task.exportName ∧ task.wasm ≠ []) ∧
      ([fooTask, underscoreFooTask].map DiscoveredTask.exportName).Nodup ∧
      ∃ files, startProject.wasmFiles [fooTask, underscoreFooTask] = some files ∧
        planWasmTasks (fun _ ↦ 0) oneNode (buildManifest [fooTask, underscoreFooTask]) files =
          .error (.valueError "Duplicate wasm upload for `foo.wasm`") := by
  refine ⟨by decide, by decide, _, rfl, ?_⟩
  decide +kernel

open Sample in
theorem build_planned_iff_foo :
    ∃ files planned, startProject.wasmFiles [fooTask] = some files ∧
      planWasmTasks (fun _ ↦ 0) oneNode (buildManifest [fooTask]) files = .ok planned ∧
        OwnPlan [fooTask] planned := by
  apply (build_planned_iff (fun _ ↦ 0) oneNode (by decide) (by decide)).mpr
  refine ⟨by decide, by decide, fun task htask ↦ ?_, by decide⟩
  rw [List.mem_singleton.mp htask]
  exact ⟨by decide, by decide⟩

end TandemAio
