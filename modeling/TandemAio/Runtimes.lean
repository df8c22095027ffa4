import TandemAio.Charges

/-!
# What the nodes can run

The runtime of a task is chosen by the upload of its job, and the worker of the repository runs
one of the two.
-/

open Reasoning Reasoning.Prog

namespace TandemAio

/-! ## Where the tasks of a run come from -/

section Runs

variable [Sha256] [AsciiFold] [Storage] {tr tr₁ tr₂ : List QuotaEntry} {s s' : Store}
  {e : QuotaEntry} {β : Type} {f : Task → β}

/-- The entry is a `/start/` request that has planned a task. -/
def QuotaEntry.Plans (x : QuotaEntry) (r : StartRequest) (draws : StartDraws) (files : StartFiles)
    (planned : List PlannedTask) (a : CreateTask) : Prop :=
  ∃ limits reply checked s₁, x.event = .start limits r draws reply ∧
    r.Plans limits x.before checked files s₁ planned ∧
    a ∈ draws.creates files.runtime checked planned

omit [Sha256] in
/-- A task after a request is from before, or one that the request has planned. -/
theorem Started.created {limits : QuotaLimits} {r : StartRequest} {draws : StartDraws}
    {reply : StartReply} (h : Started limits r draws s reply s')
    (hf : ∀ {s t task task' l}, Edit s t task l task' → f task' = f task) {t : Tid} {task' : Task}
    (ht : s'.task t = some task') :
    (∃ task, s.task t = some task ∧ f task = f task') ∨
      ∃ files planned a now, f (a.task now) = f task' ∧
        QuotaEntry.Plans ⟨s, .start limits r draws reply, s'⟩ r draws files planned a := by
  have hstale : ∀ {s₁ task'}, Runs requeueStaleTasks s () s₁ → s₁.task t = some task' →
      ∃ task, s.task t = some task ∧ f task = f task' := by
    intro s₁ task' hruns ht
    refine ((wp_requeueStaleTasks s).elim hruns).kept (fun l hl ↦ ?_) hf ht
    cases l <;> first | rfl | exact hl.elim
  have hcreated : ∀ {checked files s₁ s₂ planned b}, r.Plans limits s checked files s₁ planned →
      (draws.jobStore s₁ checked planned).createTasks
        (draws.creates files.runtime checked planned) = (b, s₂) → s₂.task t = some task' →
      (∃ task, s.task t = some task ∧ f task = f task') ∨
        ∃ files planned a now, f (a.task now) = f task' ∧
          QuotaEntry.Plans ⟨s, .start limits r draws reply, s'⟩ r draws files planned a := by
    intro checked files s₁ s₂ planned b hplans hcreates ht
    rw [show s₂ = ((draws.jobStore s₁ checked planned).createTasks
      (draws.creates files.runtime checked planned)).2 by rw [hcreates]] at ht
    rcases createTasks_task ht with hold | ⟨a, ha, now, rfl⟩
    · exact .inl (hstale hplans.stale hold)
    · exact .inr ⟨files, planned, a, now, rfl, limits, reply, checked, s₁, rfl, hplans, ha⟩
  cases h with
  | refused => exact .inl ⟨task', ht, rfl⟩
  | unplanned _ _ hruns => exact .inl (hstale hruns ht)
  | queued hplans hcreates => exact hcreated hplans hcreates ht
  | raised hplans hcreates => exact hcreated hplans hcreates ht

/-- Every task was planned by a request of the run, and what no edit changes is as planned. -/
theorem QuotaRun.created (h : QuotaRun tr s)
    (hf : ∀ {s t task task' l}, Edit s t task l task' → f task' = f task) {t : Tid} {task : Task}
    (ht : s.task t = some task) :
    ∃ x ∈ tr, ∃ r draws files planned a now, f (a.task now) = f task ∧
      x.Plans r draws files planned a := by
  induction h generalizing t task with
  | start => cases ht
  | @step tr s event s' hrun hjobs hpids hstep ih =>
    have hkeep : (∃ task₀, s.task t = some task₀ ∧ f task₀ = f task) →
        ∃ x ∈ tr ++ [⟨s, event, s'⟩], ∃ r draws files planned a now, f (a.task now) = f task ∧
          x.Plans r draws files planned a := by
      rintro ⟨task₀, ht₀, hsame⟩
      obtain ⟨x, hx, hplans⟩ := ih ht₀
      rw [hsame] at hplans
      exact ⟨x, List.mem_append_left _ hx, hplans⟩
    cases hstep with
    | @start limits r draws reply _ hruns =>
      have hends := (wp_start _ _ _).elim hruns
      rcases hends.created hf ht with hold | ⟨files, planned, a, now, hplans⟩
      · exact hkeep hold
      · exact ⟨_, List.mem_append_right _ (List.mem_singleton_self _), r, draws, files, planned, a,
          now, hplans⟩
    | act hact hnew hruns =>
      exact hkeep ((Runs.via hnew hruns).kept (fun l ↦ Action.may_creates hact) hf ht)
    | tables => exact hkeep ⟨task, ht, rfl⟩
    | expireUsage => exact hkeep ⟨task, ht, rfl⟩

/-- A claim answers with a task that a request before it has planned. -/
theorem QuotaRun.claimed (h : QuotaRun (tr₁ ++ e :: tr₂) s) {auth : NodeAuth}
    {claimToken downloadToken : Token} {answer : ClaimResponse}
    (he : e.event = .act (.claim auth claimToken downloadToken) (.claimed answer))
    (hf : ∀ {s t task task' l}, Edit s t task l task' → f task' = f task) :
    ∃ task, e.after.task answer.tid = some task ∧ answer = claimResponse answer.tid task ∧
      ∃ x ∈ tr₁, ∃ r draws files planned a now, f (a.task now) = f task ∧
        x.Plans r draws files planned a := by
  obtain ⟨hrun, hstep⟩ := h.split
  rw [he] at hstep
  have hlast := hrun.step (e := .act (.claim auth claimToken downloadToken) (.claimed answer))
    (fun jobId hjobId ↦ by cases hjobId) (fun pid hmakes ↦ hmakes.elim) hstep
  obtain ⟨task, ht, hanswer⟩ : ∃ task, e.after.task answer.tid = some task ∧
      answer = claimResponse answer.tid task := by
    cases hstep with
    | act _ _ hruns =>
      rcases (wp_claimTask _ _ _ _).elim hruns with ⟨hrefused, -⟩ | ⟨n, -, hclaimed⟩
      · cases hrefused
      · obtain ⟨task, ht, -, hanswer, -⟩ := hclaimed.answers answer rfl
        exact ⟨task, ht, hanswer⟩
  obtain ⟨x, hx, hplanned⟩ := hlast.created hf ht
  refine ⟨task, ht, hanswer, x, ?_, hplanned⟩
  rcases List.mem_append.mp hx with hx | hx
  · exact hx
  · -- the claim itself plans nothing
    obtain ⟨r, draws, files, planned, a, now, -, limits, reply, checked, s₁, hevent, -⟩ := hplanned
    rw [List.mem_singleton.mp hx] at hevent
    cases hevent

/-! ## The runtime of a claimed task -/

omit [Sha256] [AsciiFold] [Storage] in
theorem Edit.runtime {t : Tid} {task task' : Task} {l : Label} (h : Edit s t task l task') :
    (task'.jobId, task'.runtime) = (task.jobId, task.runtime) := by
  cases h <;> rfl

/-- A worker goes on with a task that it has claimed exactly if the files of its job were compiled
to WebAssembly. -/
theorem claimed_executable_iff (h : QuotaRun (tr₁ ++ e :: tr₂) s) {auth : NodeAuth}
    {claimToken downloadToken : Token} {answer : ClaimResponse}
    (he : e.event = .act (.claim auth claimToken downloadToken) (.claimed answer)) :
    ∃ x ∈ tr₁, ∃ limits r draws reply files, x.event = .start limits r draws reply ∧
      draws.jobId = answer.jobId ∧ r.files = some files ∧
      (unsupportedRuntime answer.runtime.text = none ↔
        ∃ manifest wasmFiles, files = .wasm manifest wasmFiles) := by
  obtain ⟨task, ht, hanswer, x, hx, r, draws, files, planned, a, now, hsame, limits, reply, checked,
    s₁, hevent, hplans, ha⟩ := h.claimed he Edit.runtime
  obtain ⟨hjob, hruntime⟩ := Prod.mk.inj hsame
  unfold StartDraws.creates at ha
  obtain ⟨i, hi, rfl⟩ := List.mem_mapIdx.mp ha
  refine ⟨x, hx, limits, r, draws, reply, files, hevent, ?_, hplans.given, ?_⟩
  · rw [hanswer]
    exact hjob
  · rw [hanswer]
    show unsupportedRuntime task.runtime.text = none ↔ _
    rw [← hruntime]
    cases files with
    | wasm manifest wasmFiles =>
      have hruns : unsupportedRuntime Runtime.wasm.text = none := by decide
      exact iff_of_true hruns ⟨manifest, wasmFiles, rfl⟩
    | cloudpickle pickleFiles =>
      have hfails : unsupportedRuntime Runtime.cloudpickle.text ≠ none := by decide
      exact iff_of_false hfails fun ⟨_, _, h⟩ ↦ by cases h

end Runs

/-! ## Two uploads -/

namespace Sample

def uploadBy (files : StartFiles) : StartRequest := { startBy keyOne with files := some files }

def jobStarted (files : StartFiles) : Store :=
  storeAfter (start (fun _ ↦ none) (uploadBy files) startDraws) nodeJoined

def jobClaimed (files : StartFiles) : Store :=
  storeAfter (handle (.claim authA claim1 download1)) (jobStarted files)

def pickleUpload : StartFiles := .cloudpickle [⟨"a.pkl", [1]⟩]

def wasmUpload : StartFiles :=
  .wasm (.tasks [some ⟨"foo", "foo", "tasks/foo.wasm", none, none⟩]) [⟨"foo.wasm", [1]⟩]

/-- A job is started from the files, and the node claims its task. -/
def uploadEntries (files : StartFiles) (answer : ClaimResponse) : List QuotaEntry :=
  joinedEntries ++
    [⟨nodeJoined, .start (fun _ ↦ none) (uploadBy files) startDraws startReply,
      jobStarted files⟩] ++
    [⟨jobStarted files, .act (.claim authA claim1 download1) (.claimed answer), jobClaimed files⟩]

theorem uploadRun {files : StartFiles} {answer : ClaimResponse}
    (hstart : (exec 300 (start (fun _ ↦ none) (uploadBy files) startDraws) nodeJoined).map
      Prod.fst = some startReply)
    (hclaim : (exec 300 (handle (.claim authA claim1 download1)) (jobStarted files)).map
      Prod.fst = some (.claimed answer)) :
    QuotaRun (uploadEntries files answer) (jobClaimed files) :=
  (quotaRun_started joinedRun (by decide) (runs_storeAfter hstart)).act
    (a := .claim authA claim1 download1) rfl trivial (runs_storeAfter hclaim)

end Sample

open Sample in
/-- The worker runs a task that was compiled. -/
theorem claimed_executable_iff_wasm :
    ∃ x ∈ joinedEntries ++ [⟨nodeJoined, .start (fun _ ↦ none) (uploadBy wasmUpload) startDraws
        startReply, jobStarted wasmUpload⟩],
      ∃ limits r draws reply files, x.event = .start limits r draws reply ∧
        draws.jobId = job ∧ r.files = some files ∧
        (unsupportedRuntime "wasm" = none ↔
          ∃ manifest wasmFiles, files = .wasm manifest wasmFiles) := by
  have hanswers : (exec 300 (start (fun _ ↦ none) (uploadBy wasmUpload) startDraws) nodeJoined).map
        Prod.fst = some startReply ∧
      (exec 300 (handle (.claim authA claim1 download1)) (jobStarted wasmUpload)).map Prod.fst =
        some (.claimed ⟨task1, job, "foo", "foo.wasm", .wasm, some claim1, some download1, none,
          none⟩) := by
    decide +kernel
  exact claimed_executable_iff (uploadRun hanswers.1 hanswers.2) rfl

open Sample in
/-- The only node has registered as the worker does, and claims a task that it reports as
unsupported. -/
theorem pickle_given_to_worker :
    join nodeA keyA (some 1) = .register (workerRegisterNode 1 nodeA keyA none) ∧
    ∃ answer, QuotaRun (uploadEntries pickleUpload answer) (jobClaimed pickleUpload) ∧
      unsupportedRuntime answer.runtime.text = some "unsupported runtime: cloudpickle" := by
  have hanswers : (exec 300 (start (fun _ ↦ none) (uploadBy pickleUpload) startDraws)
        nodeJoined).map Prod.fst = some startReply ∧
      (exec 300 (handle (.claim authA claim1 download1)) (jobStarted pickleUpload)).map Prod.fst =
        some (.claimed ⟨task1, job, "a", "a.pkl", .cloudpickle, some claim1, some download1, none,
          none⟩) := by
    decide +kernel
  exact ⟨rfl, _, uploadRun hanswers.1 hanswers.2, by decide⟩

end TandemAio
