import TandemAio.Startable

/-!
# `rpc.py` of the SDK

A remote call of a task: the manifest entry it looks up, the files it sends, and what its future
makes of the results of the job.
-/

namespace TandemAio

/-- `task_name.split(":")[-1]` -/
def shortName (taskName : String) : String :=
  String.ofList ((taskName.toList.splitOnP (· == ':')).getLast?.getD [])

/-- `_find_task`; `none` is a `ValueError`. -/
def findTask (manifest : List ManifestEntry) (short : String) : Option ManifestEntry :=
  manifest.find? fun entry ↦ entry.name = short ∨ entry.qualname = short

/-- The exceptions of `submit_task` before it sends anything. -/
inductive SubmitError
  | valueError (message : String)
  | fileNotFound (path : String)
  | overflowError
deriving DecidableEq

/-- What `submit_task` sends: the entry of its single-task manifest, and the wasm file. -/
structure Submission where
  entry : ManifestEntry
  upload : Upload
deriving DecidableEq

/-- `submit_task`, up to the request.  `files` are the files under the output directory. -/
def submitTask (manifest : List ManifestEntry) (files : String → Option (List UInt8))
    (taskName : String) (inputJson : List UInt8) : Except SubmitError Submission :=
  let short := shortName taskName
  match findTask manifest short with
  | none => .error (.valueError ("Task " ++ short ++ " not found in the build manifest."))
  | some taskInfo =>
    if taskInfo.wasm = "" then
      .error (.valueError ("No WASM file specified for task " ++ short ++ "."))
    else
      match files taskInfo.wasm with
      | none => .error (.fileNotFound taskInfo.wasm)
      | some wasmBytes =>
        match submitTask.combinedPayload wasmBytes inputJson with
        | none => .error .overflowError
        | some combinedPayload => .ok ⟨taskInfo, ⟨pathName taskInfo.wasm, combinedPayload⟩⟩

/-! ## The future -/

/-- An item of the `results` of a job.  `result_b64` is what it decodes to. -/
structure JobResult where
  taskName : String
  status : TaskStatus
  error : Option String
  resultB64 : Option (List UInt8)
deriving DecidableEq

/-- The answer of `/start/<job_id>/results`. -/
structure JobAnswer where
  done : Bool
  status : JobStatus
  results : List JobResult
deriving DecidableEq

/-- The error a future is resolved with. -/
inductive FutureError
  | jobFailed (status : JobStatus)
  | workerFailed (error : Option String)
  | notFound (short : String)
  /-- `b64decode(None)` -/
  | typeError
deriving DecidableEq

/-- What one check of a future finds. `value` has the bytes that the value is decoded from. -/
inductive Poll
  | pending
  | value (raw : List UInt8)
  | error (error : FutureError)
deriving DecidableEq

/-- `poll` of `_make_poll`. -/
def poll (short : String) (summary : JobAnswer) : Poll :=
  if !summary.done then .pending
  else if summary.status ≠ .completed then .error (.jobFailed summary.status)
  else
    match summary.results.find? (·.taskName = short) with
    | none => .error (.notFound short)
    | some taskResult =>
      if taskResult.status ≠ .completed then .error (.workerFailed taskResult.error)
      else
        match taskResult.resultB64 with
        | none => .error .typeError
        | some raw => .value raw

/-! ## A call that completes -/

/-- A job that has completed, with one result for each of its tasks.  `runs` are the outputs that
a node may report for a payload. -/
structure Completed (runs : List UInt8 → List UInt8 → Prop) (planned : List PlannedTask)
    (answer : JobAnswer) : Prop where
  done : answer.done = true
  status : answer.status = .completed
  results : List.Forall₂ (fun p result ↦ result.taskName = p.taskName ∧
    result.status = .completed ∧ ∃ raw, result.resultB64 = some raw ∧ runs p.payload raw)
    planned answer.results

section Calls

variable [AsciiFold] {tasks : List DiscoveredTask} {f g : DiscoveredTask} {taskName short : String}

/-- The `task_name` of `submit`, for an object that has a `submit`. -/
def DiscoveredTask.submitName (f : DiscoveredTask) : Option String :=
  f.function.map fun (module, name) ↦ module ++ ":" ++ name

/-- The file a call of `f` sends. -/
def DiscoveredTask.callUpload (f : DiscoveredTask) (input : List UInt8) : Upload :=
  ⟨pathName f.wasmPath, frame f.wasm input⟩

/-- The server can run a call of `f`: its binary can be framed, and the server plans its entry. -/
structure DiscoveredTask.Callable (f : DiscoveredTask) : Prop where
  size : f.wasm.length < 2 ^ 32
  planned : ∃ queued available input planned,
    planWasmTasks queued available [f.entry] [f.callUpload input] = .ok planned

/-- A call `f.submit(..)` finds the entry of `f`, and when its job completes, it has sent the
binary of `f` and its future has a result of it. -/
structure CallsOwn (tasks : List DiscoveredTask) (f : DiscoveredTask) (taskName : String) :
    Prop where
  entry : findTask (buildManifest tasks) (shortName taskName) = some f.entry
  result : ∀ runs queued available input submission planned answer,
    submitTask (buildManifest tasks) (buildProject tasks) taskName input = .ok submission →
    planWasmTasks queued available [submission.entry] [submission.upload] = .ok planned →
    Completed runs planned answer →
      submission.upload.payload = frame f.wasm input ∧
        ∃ raw, poll (shortName taskName) answer = .value raw ∧ runs (frame f.wasm input) raw

/-- The name that a call of `f` looks for is the one the server gives its task, the entry of `f`
matches it, and no entry before does. -/
structure Found (tasks : List DiscoveredTask) (f : DiscoveredTask) (short : String) : Prop where
  name : strStrip f.exportName = short
  own : f.exportName = short ∨ f.qualname = short
  first : ∀ g ∈ tasks, g.exportName < f.exportName → g.exportName ≠ short ∧ g.qualname ≠ short

/-! ## The lookup -/

omit [AsciiFold] in
theorem findTask_build {entry : ManifestEntry} :
    findTask (buildManifest tasks) short = some entry ↔
      ∃ g, (describeTarget tasks).find? (fun g ↦ g.exportName = short ∨ g.qualname = short) =
        some g ∧ entry = g.entry := by
  unfold findTask buildManifest
  rw [List.find?_map]
  rw [Option.map_eq_some_iff]
  constructor
  · rintro ⟨g, hg, rfl⟩
    exact ⟨g, hg, rfl⟩
  · rintro ⟨g, hg, rfl⟩
    exact ⟨g, hg, rfl⟩

omit [AsciiFold] in
/-- The entry of `f` is found when it matches and nothing that is sorted before it does. -/
theorem findTask_own (hdistinct : (tasks.map DiscoveredTask.exportName).Nodup) (hf : f ∈ tasks) :
    findTask (buildManifest tasks) short = some f.entry ↔
      (f.exportName = short ∨ f.qualname = short) ∧
        ∀ g ∈ tasks, g.exportName < f.exportName → g.exportName ≠ short ∧ g.qualname ≠ short := by
  have hsorted := describeTarget_sorted hdistinct
  rw [findTask_build]
  constructor
  · rintro ⟨g, hfind, hentry⟩
    have hg := mem_describeTarget.mp (List.mem_of_find?_eq_some hfind)
    have hname : f.exportName = g.exportName := congrArg ManifestEntry.name hentry
    obtain rfl := eq_of_exportName hdistinct hf hg hname
    obtain ⟨hmatch, before, after, hsplit, hbefore⟩ := List.find?_eq_some_iff_append.mp hfind
    refine ⟨by simpa using hmatch, fun g hg hlt ↦ ?_⟩
    -- a smaller name stands before `f` in the sorted list
    have hmem : g ∈ before := by
      have hmem := mem_describeTarget.mpr hg
      rw [hsplit] at hmem hsorted
      rcases List.mem_append.mp hmem with hmem | hmem
      · exact hmem
      · have hle : f.exportName ≤ g.exportName := by
          rcases List.mem_cons.mp hmem with rfl | hmem
          · exact le_rfl
          · exact ((List.pairwise_cons.mp (List.pairwise_append.mp hsorted).2.1).1 g hmem).le
        exact absurd hlt (not_lt.mpr hle)
    simpa using hbefore g hmem
  · rintro ⟨hmatch, hfirst⟩
    refine ⟨f, ?_, rfl⟩
    obtain ⟨before, after, hsplit⟩ := List.append_of_mem (mem_describeTarget.mpr hf)
    apply List.find?_eq_some_iff_append.mpr
    refine ⟨by simpa using hmatch, before, after, hsplit, fun g hg ↦ ?_⟩
    have hmem : g ∈ tasks := by
      apply mem_describeTarget.mp
      rw [hsplit]
      exact List.mem_append_left _ hg
    rw [hsplit] at hsorted
    have hlt := (List.pairwise_append.mp hsorted).2.2 g hg f List.mem_cons_self
    simpa using hfirst g hmem hlt

omit [AsciiFold] in
theorem submitTask_own (hdistinct : (tasks.map DiscoveredTask.exportName).Nodup) (hf : f ∈ tasks)
    (hentry : findTask (buildManifest tasks) (shortName taskName) = some f.entry)
    (hsize : f.wasm.length < 2 ^ 32) (input : List UInt8) :
    submitTask (buildManifest tasks) (buildProject tasks) taskName input =
      .ok ⟨f.entry, f.callUpload input⟩ := by
  have hpath : f.entry.wasm ≠ "" := by
    intro hempty
    have hlist := congrArg String.toList hempty
    simp [DiscoveredTask.entry, DiscoveredTask.wasmPath, String.toList_append] at hlist
  have hfile : buildProject tasks f.entry.wasm = some f.wasm := buildProject_wasmPath hdistinct hf
  have hpayload : submitTask.combinedPayload f.wasm input = some (frame f.wasm input) :=
    encoder_frame (by simp [payloadEncoders]) hsize
  unfold submitTask
  simp only [hentry, hfile, hpayload]
  rw [if_neg hpath]
  rfl

/-! ## The plan of a call -/

/-- The tasks of a call have the entry's name and the payload that was sent. -/
theorem plan_single {queued : NodeId → Nat} {available : AvailableNodes} {entry : ManifestEntry}
    {upload : Upload} {planned : List PlannedTask}
    (h : planWasmTasks queued available [entry] [upload] = .ok planned) :
    planned ≠ [] ∧
      ∀ p ∈ planned, p.taskName = strStrip entry.name ∧ p.payload = upload.payload := by
  obtain ⟨uploads, used, huploads, hentries, -, hplanned⟩ := planWasmTasks_ok.mp h
  obtain ⟨-, -, -, rfl⟩ := collectWasmUploads_ok.mp huploads
  obtain ⟨-, -, hof, -⟩ := planEntries_spec hentries
  refine ⟨hplanned, fun p hp ↦ ?_⟩
  obtain ⟨e, he, hpe⟩ := hof p hp
  obtain rfl := List.mem_singleton.mp he
  refine ⟨hpe.taskName, ?_⟩
  have hlookup := hpe.payload
  rw [List.map_singleton, List.lookup_cons] at hlookup
  split at hlookup
  · exact (Option.some.inj hlookup).symm
  · cases hlookup

omit [AsciiFold] in
/-- A completed job has a result for a call whose tasks have the name the future looks for. -/
theorem poll_completed {runs : List UInt8 → List UInt8 → Prop} {planned : List PlannedTask}
    {answer : JobAnswer} {payload : List UInt8} (h : Completed runs planned answer)
    (hne : planned ≠ []) (hall : ∀ p ∈ planned, p.taskName = short ∧ p.payload = payload) :
    ∃ raw, poll short answer = .value raw ∧ runs payload raw := by
  obtain ⟨done, status, results⟩ := answer
  obtain ⟨hdone, hstatus, hresults⟩ := h
  cases hresults with
  | nil => exact absurd rfl hne
  | @cons p result ps rest hfirst hrest =>
    obtain ⟨hname, hcompleted, raw, hraw, hrun⟩ := hfirst
    obtain ⟨hshort, hpayload⟩ := hall p List.mem_cons_self
    have hfind : (result :: rest).find? (·.taskName = short) = some result := by
      apply List.find?_cons_of_pos
      rw [hname, hshort]
      exact decide_eq_true rfl
    dsimp only at hdone hstatus
    refine ⟨raw, ?_, hpayload ▸ hrun⟩
    unfold poll
    rw [hdone, hstatus]
    dsimp only
    rw [if_neg (by decide), if_neg (by decide), hfind]
    dsimp only
    rw [if_neg (not_not.mpr hcompleted), hraw]

omit [AsciiFold] in
theorem Completed.exists_planned {runs : List UInt8 → List UInt8 → Prop}
    {planned : List PlannedTask} {answer : JobAnswer} (h : Completed runs planned answer)
    {result : JobResult} (hmem : result ∈ answer.results) :
    ∃ p ∈ planned, p.taskName = result.taskName := by
  have hresults := h.results
  generalize answer.results = results at hmem hresults
  clear h
  induction hresults with
  | nil => cases hmem
  | @cons p head ps rest hhead _ ih =>
    rcases List.mem_cons.mp hmem with rfl | hmem
    · exact ⟨p, List.mem_cons_self, hhead.1.symm⟩
    · obtain ⟨q, hq, hname⟩ := ih hmem
      exact ⟨q, List.mem_cons_of_mem p hq, hname⟩

omit [AsciiFold] in
/-- A result is only found among the names of the planned tasks. -/
theorem poll_value {planned : List PlannedTask} {answer : JobAnswer} {raw : List UInt8}
    {runs : List UInt8 → List UInt8 → Prop} (h : Completed runs planned answer)
    (hpoll : poll short answer = .value raw) : ∃ p ∈ planned, p.taskName = short := by
  have hresult : ∃ result ∈ answer.results, result.taskName = short := by
    unfold poll at hpoll
    split at hpoll
    · cases hpoll
    · split at hpoll
      · cases hpoll
      · split at hpoll
        · cases hpoll
        · rename_i result hfind
          exact ⟨result, List.mem_of_find?_eq_some hfind, by simpa using List.find?_some hfind⟩
  obtain ⟨result, hmem, hname⟩ := hresult
  obtain ⟨p, hp, hplanned⟩ := h.exists_planned hmem
  exact ⟨p, hp, hplanned.trans hname⟩

omit [AsciiFold] in
/-- The answer in which every task of a plan has completed with an empty output. -/
theorem exists_completed (planned : List PlannedTask) :
    ∃ answer, Completed (fun _ _ ↦ True) planned answer := by
  refine ⟨⟨true, .completed, planned.map fun p ↦ ⟨p.taskName, .completed, none, some []⟩⟩,
    rfl, rfl, ?_⟩
  rw [List.forall₂_map_right_iff]
  exact List.forall₂_same.mpr fun p _ ↦ ⟨rfl, rfl, [], rfl, trivial⟩

/-! ## Calls -/

theorem callsOwn_iff (hdistinct : (tasks.map DiscoveredTask.exportName).Nodup) (hf : f ∈ tasks)
    (hcall : f.Callable) : CallsOwn tasks f taskName ↔ Found tasks f (shortName taskName) := by
  constructor
  · rintro ⟨hentry, hresult⟩
    obtain ⟨hown, hfirst⟩ := (findTask_own hdistinct hf).mp hentry
    refine ⟨?_, hown, hfirst⟩
    obtain ⟨hsize, queued, available, input, planned, hplanned⟩ := hcall
    obtain ⟨answer, hanswer⟩ := exists_completed planned
    have hsubmit := submitTask_own hdistinct hf hentry hsize input
    obtain ⟨-, raw, hpoll, -⟩ := hresult _ queued available input _ planned answer hsubmit hplanned
      hanswer
    obtain ⟨p, hp, hname⟩ := poll_value hanswer hpoll
    rw [← hname, ((plan_single hplanned).2 p hp).1]
    rfl
  · rintro ⟨hname, hown, hfirst⟩
    have hentry := (findTask_own hdistinct hf).mpr ⟨hown, hfirst⟩
    refine ⟨hentry, ?_⟩
    intro runs queued available input submission planned answer hsubmit hplanned hanswer
    rw [submitTask_own hdistinct hf hentry hcall.size input] at hsubmit
    cases hsubmit
    obtain ⟨hne, hall⟩ := plan_single hplanned
    refine ⟨rfl, poll_completed hanswer hne fun p hp ↦ ?_⟩
    obtain ⟨htask, hpayload⟩ := hall p hp
    exact ⟨htask.trans hname, hpayload⟩

/-- A call of a task that the server can run ships the task's own binary and resolves its future
with a result of it exactly when its name finds its own entry and is the name of that entry. -/
theorem call_own_iff (hdistinct : (tasks.map DiscoveredTask.exportName).Nodup) (hf : f ∈ tasks)
    (hcall : f.Callable) :
    (∀ taskName, f.submitName = some taskName → CallsOwn tasks f taskName) ↔
      ∀ taskName, f.submitName = some taskName → Found tasks f (shortName taskName) :=
  forall₂_congr fun _ _ ↦ callsOwn_iff hdistinct hf hcall

end Calls

/-! ## A task under another name than its function's -/

namespace Sample

/-- `main = tandem.compute()(slow)`. -/
def mainTask : DiscoveredTask where
  exportName := "main"
  kind := .compute (some (.int 50))
  qualname := "slow"
  function := some ("app", "slow")
  wasm := [7]

def mainPlan : List PlannedTask :=
  [{ filename := "main.wasm"
     payload := frame [7] []
     assignedNode := name "node-1" node1_valid
     taskName := "main"
     timeoutMs := some 50
     shard := none }]

def mainAnswer : JobAnswer where
  done := true
  status := .completed
  results := [⟨"main", .completed, none, some [0x35]⟩]

end Sample

open Sample in
/-- The call ships `main`, the job completes, and the future raises. -/
theorem renamed_task_is_not_found :
    mainTask.submitName = some "app:slow" ∧
      ∃ submission, submitTask (buildManifest [mainTask]) (buildProject [mainTask]) "app:slow" [] =
        .ok submission ∧
      planWasmTasks (fun _ ↦ 0) oneNode [submission.entry] [submission.upload] = .ok mainPlan ∧
      Completed (fun payload raw ↦ payload = frame [7] [] ∧ raw = [0x35]) mainPlan mainAnswer ∧
      poll (shortName "app:slow") mainAnswer = .error (.notFound "slow") := by
  refine ⟨by decide, ⟨mainTask.entry, mainTask.callUpload []⟩, by decide +kernel,
    by decide +kernel, ⟨rfl, rfl, ?_⟩, by decide⟩
  exact .cons ⟨rfl, rfl, [0x35], rfl, rfl, rfl⟩ .nil

open Sample in
theorem call_own_iff_foo :
    fooTask.Callable ∧
      ∀ taskName, fooTask.submitName = some taskName → CallsOwn [fooTask] fooTask taskName := by
  have hcall : fooTask.Callable := by
    refine ⟨by decide, fun _ ↦ 0, oneNode, [], ?_⟩
    refine ⟨[⟨"foo.wasm", frame [1] [], name "node-1", "foo", some 50, none⟩], ?_⟩
    decide +kernel
  have hdistinct : ([fooTask].map DiscoveredTask.exportName).Nodup := by decide
  refine ⟨hcall, (call_own_iff hdistinct (by decide) hcall).mpr ?_⟩
  intro taskName hname
  have hshort : shortName taskName = "foo" := by
    cases hname
    decide
  rw [hshort]
  refine ⟨by decide, by decide, fun g hg hlt ↦ ?_⟩
  rw [List.mem_singleton.mp hg] at hlt
  exact absurd hlt (lt_irrefl _)

end TandemAio
