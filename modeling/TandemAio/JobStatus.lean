import TandemAio.Fencing

/-!
# Job completion

`refresh_job_status` counts the tasks of a job in the job's list, which grows while the job is
being created, and never reads the `total_tasks` that `create_job` has recorded.  Its report is
right, and final, when the list is complete.
-/

open Reasoning Reasoning.Prog

namespace TandemAio

/-! ## `_queue_planned_tasks`

Its loop creates a job and then its tasks; each of them is one step of a run. -/

/-- The requests `_queue_planned_tasks` makes of the queue. -/
def queuePlannedTasks (a : CreateJob) (planned : List CreateTask) : List Action :=
  .createJob a :: planned.map .createTask

/-- The steps that create a job or its tasks. -/
def Action.creates (jobId : JobId) : Action → Bool
  | .createJob a => a.jobId = jobId
  | .createTask a => a.jobId = jobId
  | _ => false

/-- Every job of a run is created by the loop, as far as the loop has come. -/
def CreatedByLoop (tr : List Entry) : Prop :=
  ∀ jobId, ∃ a planned, a.jobId = jobId ∧ a.totalTasks = planned.length ∧
    (∀ p ∈ planned, p.jobId = jobId) ∧
    (tr.map (·.action)).filter (·.creates jobId) <+: queuePlannedTasks a planned

/-! ## What a refresh reports -/

section Counting

variable {α β : Type} {f : α → Option β} {p : β → Bool}

theorem countP_filterMap_le (l : List α) : (l.filterMap f).countP p ≤ l.length :=
  Nat.le_trans List.countP_le_length (List.length_filterMap_le f l)

theorem countP_filterMap_eq_length {l : List α} :
    (l.filterMap f).countP p = l.length ↔ ∀ a ∈ l, ∃ b, f a = some b ∧ p b = true := by
  induction l with
  | nil => simp
  | cons a l ih =>
    have hle := countP_filterMap_le (f := f) (p := p) l
    rw [List.forall_mem_cons, ← ih, List.length_cons]
    cases hf : f a with
    | none =>
      rw [List.filterMap_cons_none hf]
      simp only [reduceCtorEq, false_and, exists_false, iff_false]
      omega
    | some b =>
      rw [List.filterMap_cons_some hf, List.countP_cons]
      simp only [Option.some.injEq, exists_eq_left']
      by_cases hp : p b = true
      · simp only [hp, if_true, true_and]
        omega
      · simp only [hp, Bool.false_eq_true, if_false, false_and, iff_false]
        omega

end Counting

theorem countStatuses_finished (tasks : List (Tid × Task)) :
    (countStatuses tasks).completed + (countStatuses tasks).failed =
      tasks.countP (·.2.status.finished) := by
  induction tasks with
  | nil => rfl
  | cons t tasks ih =>
    unfold countStatuses at ih ⊢
    simp only [List.countP_cons, decide_eq_true_eq] at ih ⊢
    have hone : (if t.2.status = .completed then 1 else 0) +
        (if t.2.status = .failed then 1 else 0) =
        if t.2.status.finished = true then 1 else 0 := by
      cases t.2.status <;> rfl
    omega

/-- Every task in a job's list is finished. -/
def Store.Ended (s : Store) (jobId : JobId) : Prop :=
  ∀ t ∈ s.jobTasks jobId, ∃ task, s.task t = some task ∧ task.status.finished = true

/-- Every task `create_job` has announced exists and is finished. -/
structure Whole (s : Store) (jobId : JobId) (job : Job) : Prop where
  total : (s.jobTasks jobId).length = job.totalTasks
  ended : s.Ended jobId

variable {s s' : Store} {j : JobId}

theorem jobSummary_done : (s.jobSummary j).done = true ↔ s.jobTasks j ≠ [] ∧ s.Ended j := by
  have hcount : (s.jobTaskHashes j).countP (·.2.status.finished) = (s.jobTasks j).length ↔
      s.Ended j := by
    rw [Store.jobTaskHashes, countP_filterMap_eq_length]
    refine forall₂_congr fun t _ ↦ ?_
    cases s.task t with
    | none => simp
    | some task => simp
  rw [Store.jobSummary, summarize, decide_eq_true_iff, countStatuses_finished, hcount,
    List.length_pos_iff]

theorem jobSummary_status (s : Store) (j : JobId) : (s.jobSummary j).status =
    if (s.jobSummary j).done = true ∧ (s.jobSummary j).counts.failed ≠ 0 then .failed
    else if (s.jobSummary j).done = true then .completed
    else if (s.jobSummary j).counts.running ≠ 0 ∨ (s.jobSummary j).counts.claimed ≠ 0 then .running
    else .queued := rfl

/-- The statuses `completed` and `failed` are those of a finished job. -/
theorem jobSummary_status_done : (s.jobSummary j).done = true ↔
    (s.jobSummary j).status = .completed ∨ (s.jobSummary j).status = .failed := by
  rw [jobSummary_status]
  by_cases hd : (s.jobSummary j).done = true
  · by_cases hf : (s.jobSummary j).counts.failed = 0 <;> simp [hd, hf]
  · simp only [hd, Bool.false_eq_true, false_and, if_false, false_iff]
    split <;> simp

/-- A finished job has failed when one of its tasks has. -/
theorem jobSummary_status_failed (h : (s.jobSummary j).done = true) :
    (s.jobSummary j).status = .failed ↔
      ∃ t ∈ s.jobTasks j, ∃ task, s.task t = some task ∧ task.status = .failed := by
  have hcount : (s.jobSummary j).counts.failed ≠ 0 ↔
      ∃ t ∈ s.jobTasks j, ∃ task, s.task t = some task ∧ task.status = .failed := by
    rw [← Nat.pos_iff_ne_zero, Store.jobSummary, summarize, countStatuses, List.countP_pos_iff,
      Store.jobTaskHashes]
    simp only [List.mem_filterMap, Option.map_eq_some_iff, decide_eq_true_eq]
    constructor
    · rintro ⟨-, ⟨t, ht, task, hs, rfl⟩, hf⟩
      exact ⟨t, ht, task, hs, hf⟩
    · rintro ⟨t, ht, task, hs, hf⟩
      exact ⟨(t, task), ⟨t, ht, task, hs, rfl⟩, hf⟩
  rw [← hcount, jobSummary_status]
  by_cases hz : (s.jobSummary j).counts.failed = 0 <;> simp [h, hz]

theorem jobSummary_congr (hl : s'.jobTasks j = s.jobTasks j)
    (ht : ∀ t ∈ s.jobTasks j, s'.task t = s.task t) : s'.jobSummary j = s.jobSummary j := by
  have hhashes : s'.jobTaskHashes j = s.jobTaskHashes j := by
    unfold Store.jobTaskHashes
    rw [hl]
    exact List.filterMap_congr fun t hmem ↦ by rw [ht t hmem]
  unfold Store.jobSummary
  rw [hl, hhashes]

/-! ## Jobs in a run -/

/-- A move that creates nothing and refreshes no job. -/
def Label.keepsJobs : Label → Prop
  | .createJob _ | .createTask _ | .refresh _ => False
  | _ => True

variable {l : Label}

theorem Move.jobs_frame (hm : Move s l s') (hl : l.keepsJobs) :
    s'.job = s.job ∧ s'.jobTasks = s.jobTasks := by
  cases hm with
  | createJob | createTask | refresh => exact hl.elim
  | _ => exact ⟨rfl, rfl⟩

theorem Move.jobTasks_eq (hm : Move s l s') (hl : ∀ a, l ≠ .createTask a) :
    s'.jobTasks = s.jobTasks := by
  cases hm with
  | createTask a => exact absurd rfl (hl a)
  | _ => rfl

/-- The number of tasks a job has announced is never changed. -/
theorem Move.totalTasks (hm : Move s l s') {job : Job} (hj : s.job j = some job) :
    ∃ job', s'.job j = some job' ∧ job'.totalTasks = job.totalTasks := by
  cases hm with
  | createJob a hnew =>
    have hne : j ≠ a.jobId := by
      rintro rfl
      rw [hnew] at hj
      cases hj
    exact ⟨job, by rw [Store.putJob_job, Function.update_of_ne hne, hj], rfl⟩
  | refresh jobId =>
    by_cases he : j = jobId
    · subst he
      exact ⟨{ job with status := (s.jobSummary j).status, updatedAt := s.clock },
        by rw [Store.refresh_job, Function.update_self, hj, Option.map_some], rfl⟩
    · exact ⟨job, by rw [Store.refresh_job, Function.update_of_ne he, hj], rfl⟩
  | _ => exact ⟨job, hj, rfl⟩

theorem Coherent.finished_stays {P : Label → Prop} (h : Coherent s) (hv : Via P s s')
    (hP : ∀ l, P l → l.keepsTasks) {t : Tid} {task : Task} (ht : s.task t = some task)
    (hf : task.status.finished = true) : s'.task t = some task := by
  refine (hv.invariant (I := fun s ↦ Coherent s ∧ s.task t = some task)
    (fun s₁ l s₂ hl hm h₁ ↦ ⟨h₁.1.move hm, ?_⟩) ⟨h, ht⟩).2
  rcases h₁.1.finished_final hm h₁.2 hf with ht₂ | ht₂
  · exact ht₂
  · obtain ⟨task', ht'⟩ := hm.task_stays (hP l hl) h₁.2
    rw [ht₂] at ht'
    cases ht'

/-- The stored status of a finished job is right. -/
def StoredAt (s : Store) (j : JobId) : Prop :=
  ∀ job, s.job j = some job → (job.status = .completed ∨ job.status = .failed) →
    Whole s j job ∧ job.status = (s.jobSummary j).status

theorem StoredAt.frame (h : StoredAt s j) (hjob : s'.job j = s.job j)
    (hlist : s'.jobTasks j = s.jobTasks j)
    (htask : ∀ t task, s.task t = some task → task.status.finished = true →
      s'.task t = some task) : StoredAt s' j := by
  intro job hj hstatus
  obtain ⟨hw, hs⟩ := h job (hjob ▸ hj) hstatus
  have hended : ∀ t ∈ s.jobTasks j, ∃ task, s.task t = some task ∧ s'.task t = some task ∧
      task.status.finished = true := by
    intro t ht
    obtain ⟨task, hs, hf⟩ := hw.ended t ht
    exact ⟨task, hs, htask t task hs hf, hf⟩
  have hsummary : s'.jobSummary j = s.jobSummary j := jobSummary_congr hlist fun t ht ↦ by
    obtain ⟨task, hs, hs', -⟩ := hended t ht
    rw [hs, hs']
  refine ⟨⟨hlist ▸ hw.total, fun t ht ↦ ?_⟩, hsummary ▸ hs⟩
  obtain ⟨task, -, hs', hf⟩ := hended t (hlist ▸ ht)
  exact ⟨task, hs', hf⟩

/-- A refresh stores the right status when all announced tasks are there. -/
theorem StoredAt.refresh {k : JobId} (h : ∀ j, j ≠ k → StoredAt s j)
    (hk : ∀ job, s.job k = some job → (s.jobSummary k).done = true →
      (s.jobTasks k).length = job.totalTasks) (j : JobId) : StoredAt (s.refresh k) j := by
  by_cases he : j = k
  · subst he
    intro job hj hstatus
    rw [Store.refresh_job, Function.update_self, Option.map_eq_some_iff] at hj
    obtain ⟨job₀, hj₀, rfl⟩ := hj
    have hdone := jobSummary_status_done.mpr hstatus
    exact ⟨⟨hk job₀ hj₀ hdone, (jobSummary_done.mp hdone).2⟩, rfl⟩
  · exact (h j he).frame (Function.update_of_ne he _ _) rfl fun _ _ ht _ ↦ ht

/-- A job with finished tasks only, but not with all that it has announced; `except` is a task
that is about to end. -/
def Store.premature (s : Store) (j : JobId) (except : Option Tid) : Prop :=
  ∃ job, s.job j = some job ∧ (s.jobTasks j).length ≠ job.totalTasks ∧ s.jobTasks j ≠ [] ∧
    ∀ t ∈ s.jobTasks j, except ≠ some t → ∃ task, s.task t = some task ∧
      task.status.finished = true

section Runs

variable [Sha256] {tr tr' : List Entry} {a : Action} {r : Response}

/-- A step that refreshes a job before all its tasks are created, with all created ones
finished. -/
def Entry.refreshesEarly (e : Entry) : Prop :=
  (∃ j, e.action = .refreshJob j ∧ e.before.premature j none) ∨
    ∃ auth tid claimToken body task, e.action = .result auth tid claimToken body ∧
      e.before.accepts auth tid claimToken body ∧ e.before.task tid = some task ∧
      e.before.premature task.jobId (some tid)

def Action.createsTask (jobId : JobId) : Action → Bool
  | .createTask a => a.jobId = jobId
  | _ => false

omit [Sha256] in
theorem CreatedByLoop.left (h : CreatedByLoop (tr ++ tr')) : CreatedByLoop tr := by
  intro j
  obtain ⟨a, planned, ha, htotal, hplanned, hinit⟩ := h j
  refine ⟨a, planned, ha, htotal, hplanned, List.IsPrefix.trans ?_ hinit⟩
  rw [List.map_append, List.filter_append]
  exact List.prefix_append _ _

theorem Run.length_jobTasks (h : Run tr s) (j : JobId) :
    (s.jobTasks j).length = tr.countP (·.action.createsTask j) := by
  induction h with
  | start => rfl
  | @step tr s a r s' hr hf hs ih =>
    rw [List.countP_append, List.countP_singleton, ← ih]
    have hv := Runs.via (hr.newTo hf) hs
    by_cases hc : ∃ a', a = .createTask a'
    · obtain ⟨a', rfl⟩ := hc
      have hs' : s' = s.create a' := by
        have hwp : wp (handle (.createTask a')) (fun _ s' ↦ s' = s.create a') s := by
          simp only [handle, wp_bind, wp_createTask, wp_pure]
        exact hwp.elim hs
      subst hs'
      rw [Store.create_jobTasks, Function.update_apply]
      by_cases he : j = a'.jobId
      · subst he
        simp [Action.createsTask]
      · simp [Action.createsTask, he, Ne.symm he]
    · have hsame : s'.jobTasks = s.jobTasks := by
        refine hv.invariant (I := fun s' ↦ s'.jobTasks = s.jobTasks)
          (fun s₁ l s₂ hl hm h₁ ↦ (hm.jobTasks_eq fun a' he ↦ ?_).trans h₁) rfl
        subst he
        exact hc ⟨a', hl.createTask⟩
      have hno : a.createsTask j = false := by
        cases a with
        | createTask a' => exact absurd ⟨a', rfl⟩ hc
        | _ => rfl
      rw [hsame]
      simp [hno]

/-- A created job keeps the number of tasks it announces. -/
theorem Run.created (h : Run tr s) {a : CreateJob} (ha : ∃ e ∈ tr, e.action = .createJob a) :
    ∃ job, s.job a.jobId = some job ∧ job.totalTasks = a.totalTasks := by
  obtain ⟨e, he, ha⟩ := ha
  obtain ⟨tr₁, tr₂, rfl⟩ := List.append_of_mem he
  have hafter : ∃ job, e.after.job a.jobId = some job ∧ job.totalTasks = a.totalTasks := by
    have hs := h.split.2.2.1
    have hwp : wp (handle (.createJob a)) (fun _ s' ↦
        ∃ job, s'.job a.jobId = some job ∧ job.totalTasks = a.totalTasks) e.before := by
      simp only [handle, createJob, wp_bind, Server.wp_read, Server.wp_write, wp_pure,
        Store.putJob_job, Function.update_self, Option.some.injEq, exists_eq_left']
    rw [ha] at hs
    exact hwp.elim hs
  refine h.later (I := fun s ↦ ∃ job, s.job a.jobId = some job ∧ job.totalTasks = a.totalTasks)
    hafter fun tr' e' _ hr hf hs hb ↦ ?_
  refine (Runs.via (hr.newTo hf) hs).invariant (I := fun s ↦
    ∃ job, s.job a.jobId = some job ∧ job.totalTasks = a.totalTasks) (fun s₁ l s₂ _ hm h₁ ↦ ?_) hb
  obtain ⟨job, hj, ht⟩ := h₁
  obtain ⟨job', hj', ht'⟩ := hm.totalTasks hj
  exact ⟨job', hj', ht'.trans ht⟩

omit [Sha256] in
theorem length_lt_of_prefix {α : Type} {L ys rest : List α} {x y : α} (hne : x ≠ y)
    (h : L ++ [x] ++ rest = y :: ys) : ∃ L', L = y :: L' ∧ L'.length < ys.length := by
  cases L with
  | nil => exact absurd (List.cons.inj h).1 hne
  | cons z L' =>
    have hys : L' ++ [x] ++ rest = ys := (List.cons.inj h).2
    refine ⟨L', by rw [(List.cons.inj h).1], ?_⟩
    have hlen := congrArg List.length hys
    simp only [List.length_append, List.length_singleton] at hlen
    omega

/-- The loop creates a task only while the job's list is shorter than announced. -/
theorem Run.creating (h : Run tr s) {e : Entry} (hloop : CreatedByLoop (tr ++ [e])) {a : CreateTask}
    (ha : e.action = .createTask a) {job : Job} (hj : s.job a.jobId = some job) :
    (s.jobTasks a.jobId).length < job.totalTasks := by
  obtain ⟨a₀, planned, hjob, htotal, -, rest, hinit⟩ := hloop a.jobId
  have hcreates : e.action.creates a.jobId = true := by
    rw [ha]
    simp [Action.creates]
  rw [List.map_append, List.filter_append, List.map_singleton, List.filter_singleton, hcreates,
    cond_true, queuePlannedTasks] at hinit
  have hne : e.action ≠ .createJob a₀ := by
    rw [ha]
    simp
  obtain ⟨L, hL, hlt⟩ := length_lt_of_prefix hne hinit
  -- every task in the list has its step in `L`
  have hcount : tr.countP (·.action.createsTask a.jobId) ≤ L.length := by
    have hfilter : tr.countP (·.action.createsTask a.jobId) =
        ((tr.map (·.action)).filter (·.creates a.jobId)).countP (·.createsTask a.jobId) := by
      rw [List.countP_filter, List.countP_map]
      refine List.countP_congr fun e' _ ↦ ?_
      simp only [Function.comp]
      cases e'.action <;> simp [Action.createsTask, Action.creates]
    rw [hfilter, hL, List.countP_cons]
    exact List.countP_le_length
  have hmem : ∃ e ∈ tr, e.action = .createJob a₀ := by
    have hin : Action.createJob a₀ ∈ (tr.map (·.action)).filter (·.creates a.jobId) := by
      rw [hL]
      exact List.mem_cons_self
    exact List.mem_map.mp (List.mem_filter.mp hin).1
  obtain ⟨job', hj', htotal'⟩ := h.created hmem
  rw [hjob, hj, Option.some.injEq] at hj'
  rw [h.length_jobTasks, hj', htotal', htotal]
  rw [List.length_map] at hlt
  omega

/-- Nothing changes a job whose announced tasks are all finished. -/
theorem Later.whole (hl : Later tr s tr' s') (hr : Run tr s) (hloop : CreatedByLoop (tr ++ tr'))
    (hkeep : ∀ e ∈ tr', ∀ tid, e.action ≠ .expireTask tid) {job : Job} (hj : s.job j = some job)
    (hw : Whole s j job) : s'.jobTasks j = s.jobTasks j ∧
      (∀ t ∈ s.jobTasks j, s'.task t = s.task t) ∧
      ∃ job', s'.job j = some job' ∧ job'.totalTasks = job.totalTasks := by
  induction hl with
  | refl => exact ⟨rfl, fun _ _ ↦ rfl, job, hj, rfl⟩
  | @step tr₁ s₁ a r s₂ hl hf hs ih =>
    rw [← List.append_assoc] at hloop
    obtain ⟨hlist, htask, job₁, hj₁, htotal⟩ := ih hloop.left
      fun e he ↦ hkeep e (List.mem_append_left _ he)
    have hr₁ := hl.run hr
    have hv := Runs.via (hr₁.newTo hf) hs
    have hkeep₁ : ∀ l, a.may s₁ r l → l.keepsTasks := by
      intro l hmay
      cases l with
      | expire tid =>
        exact hkeep ⟨s₁, a, r, s₂⟩ (List.mem_append_right _ List.mem_cons_self) tid hmay.expire
      | _ => trivial
    refine ⟨?_, fun t ht ↦ ?_, ?_⟩
    · -- the loop has come to its end for this job
      refine (hv.invariant (I := fun s₂ ↦ s₂.jobTasks j = s₁.jobTasks j)
        (fun s₃ l s₄ hmay hm h₃ ↦ ?_) rfl).trans hlist
      cases hm with
      | createTask a' =>
        have hne : j ≠ a'.jobId := by
          rintro rfl
          have hlt := hr₁.creating hloop hmay.createTask hj₁
          rw [hlist, htotal, hw.total] at hlt
          omega
        rw [Store.create_jobTasks, Function.update_of_ne hne]
        exact h₃
      | _ => exact h₃
    · obtain ⟨task, hs₀, hf₀⟩ := hw.ended t ht
      rw [hs₀]
      exact hr₁.coherent.finished_stays hv hkeep₁ ((htask t ht).trans hs₀) hf₀
    · refine hv.invariant (I := fun s₂ ↦ ∃ job', s₂.job j = some job' ∧
        job'.totalTasks = job.totalTasks) (fun s₃ l s₄ _ hm h₃ ↦ ?_) ⟨job₁, hj₁, htotal⟩
      obtain ⟨job₃, hj₃, ht₃⟩ := h₃
      obtain ⟨job₄, hj₄, ht₄⟩ := hm.totalTasks hj₃
      exact ⟨job₄, hj₄, ht₄.trans ht₃⟩

/-- After a submission has ended a task, the refresh of its job stores the right status. -/
theorem Submitted.storedAt {auth : NodeAuth} {tid : Tid} {claimToken : Option Token}
    {body : ResultBody} (h : Submitted s auth tid claimToken body r s')
    (hprem : ∀ task, s.accepts auth tid claimToken body → s.task tid = some task →
      ¬ s.premature task.jobId (some tid))
    (hframe : ∀ t task, s.task t = some task → task.status.finished = true →
      s'.task t = some task) (hs : ∀ j, StoredAt s j) (j : JobId) : StoredAt s' j := by
  -- an end of the task, with everything else as it was
  have hend : ∀ (s₂ : Store) {n : NodeId} {task : Task}, MaySubmit s auth tid claimToken n task →
      s.accepts auth tid claimToken body → s₂.job = s.job → s₂.jobTasks = s.jobTasks →
      (∀ t, t ≠ tid → s₂.task t = s.task t) →
      (∀ t task, s.task t = some task → task.status.finished = true → s₂.task t = some task) →
      ∀ j, StoredAt (s₂.refresh task.jobId) j := by
    intro s₂ n task hmay haccepts hjob hlist htask hfin j
    refine StoredAt.refresh (fun j _ ↦ (hs j).frame (by rw [hjob]) (by rw [hlist]) hfin)
      (fun job hj hdone ↦ by_contra fun hne ↦ ?_) j
    obtain ⟨hnil, hended⟩ := jobSummary_done.mp hdone
    rw [hjob] at hj
    rw [hlist] at hne hnil
    refine hprem task haccepts hmay.stored ⟨job, hj, hne, hnil, fun t ht hne' ↦ ?_⟩
    obtain ⟨task', ht', hf'⟩ := hended t (by rw [hlist]; exact ht)
    refine ⟨task', ?_, hf'⟩
    rw [← htask t fun he ↦ hne' (by rw [he])]
    exact ht'
  cases h with
  | refused => exact hs j
  | rejected => exact (hs j).frame rfl rfl hframe
  | @failed n task _ _ hmay he =>
    subst he
    exact hend (s.fail tid n task _) hmay ⟨n, task, hmay, trivial⟩ rfl rfl
      (fun t ht ↦ Function.update_of_ne ht _ _) hframe j
  | @completed n task _ receipt s₁ _ hmay hv hcharge he =>
    subst he
    have hs₁ : s₁.job = s.job ∧ s₁.jobTasks = s.jobTasks ∧ s₁.task = s.task := by
      rcases Store.chargeFor_eq hcharge with rfl | ⟨k, amount, rfl⟩ <;> exact ⟨rfl, rfl, rfl⟩
    have haccepts : s.chargeFor task.pid receipt ≠ none := by
      rw [hcharge]
      exact Option.some_ne_none _
    refine hend (s₁.complete tid n task _) hmay ⟨n, task, hmay, hv, haccepts⟩ hs₁.1 hs₁.2.1
      (fun t ht ↦ ?_) hframe j
    rw [Store.complete_task, Function.update_of_ne ht, hs₁.2.2]

theorem Run.storedAt (h : Run tr s) (hkeep : ∀ e ∈ tr, ∀ tid, e.action ≠ .expireTask tid)
    (hloop : CreatedByLoop tr) (hearly : ∀ e ∈ tr, ¬ e.refreshesEarly) (j : JobId) :
    StoredAt s j := by
  induction h generalizing j with
  | start => exact fun job hj ↦ by cases hj
  | @step tr s a r s' hr hf hs ih =>
    have hs₀ := ih (fun e he ↦ hkeep e (List.mem_append_left _ he)) hloop.left
      fun e he ↦ hearly e (List.mem_append_left _ he)
    have hin : (⟨s, a, r, s'⟩ : Entry) ∈ tr ++ [⟨s, a, r, s'⟩] :=
      List.mem_append_right _ List.mem_cons_self
    have hv := Runs.via (hr.newTo hf) hs
    have hfin : ∀ t task, s.task t = some task → task.status.finished = true →
        s'.task t = some task := fun t task ht hft ↦
      hr.coherent.finished_stays hv (fun l hl ↦ by
        cases l with
        | expire tid => exact hkeep _ hin tid hl.expire
        | _ => trivial) ht hft
    -- an action that leaves all jobs alone
    have hquiet : (∀ l, a.may s r l → l.keepsJobs) → StoredAt s' j := fun hl ↦ by
      have hjobs : s'.job = s.job ∧ s'.jobTasks = s.jobTasks :=
        hv.invariant (I := fun s' ↦ s'.job = s.job ∧ s'.jobTasks = s.jobTasks)
          (fun s₁ l s₂ hmay hm h₁ ↦ ⟨(hm.jobs_frame (hl l hmay)).1.trans h₁.1,
            (hm.jobs_frame (hl l hmay)).2.trans h₁.2⟩) ⟨rfl, rfl⟩
      exact (hs₀ j).frame (by rw [hjobs.1]) (by rw [hjobs.2]) hfin
    cases a with
    | createTask a =>
      have hwp : wp (handle (.createTask a)) (fun _ s' ↦ s' = s.create a) s := by
        simp only [handle, wp_bind, wp_createTask, wp_pure]
      obtain rfl := hwp.elim hs
      by_cases he : j = a.jobId
      · -- the list of a job that is reported is not extended
        subst he
        intro job hj hstatus
        have hlt := hr.creating hloop rfl hj
        rw [(hs₀ a.jobId job hj hstatus).1.total] at hlt
        omega
      · refine (hs₀ j).frame rfl ?_ hfin
        rw [Store.create_jobTasks, Function.update_of_ne he]
    | createJob a =>
      have hwp : wp (handle (.createJob a)) (fun _ s' ↦ s'.jobTasks = s.jobTasks ∧ ∃ job,
          job.status = .queued ∧ s'.job = Function.update s.job a.jobId (some job)) s := by
        simp only [handle, createJob, wp_bind, Server.wp_read, Server.wp_write, wp_pure]
        exact ⟨rfl, _, rfl, rfl⟩
      obtain ⟨hlist, job₀, hqueued, hjob⟩ := hwp.elim hs
      by_cases he : j = a.jobId
      · intro job hj hstatus
        rw [hjob, he, Function.update_self, Option.some.injEq] at hj
        rw [← hj, hqueued] at hstatus
        simp at hstatus
      · refine (hs₀ j).frame ?_ (by rw [hlist]) hfin
        rw [hjob, Function.update_of_ne he]
    | refreshJob k =>
      have hwp : wp (handle (.refreshJob k)) (fun _ s' ↦ s' = s.refresh k) s := by
        simp only [handle, wp_bind, wp_refreshJobStatus, wp_pure]
      obtain rfl := hwp.elim hs
      refine StoredAt.refresh (fun j _ ↦ hs₀ j) (fun job hj hdone ↦ by_contra fun hne ↦ ?_) j
      obtain ⟨hnil, hended⟩ := jobSummary_done.mp hdone
      exact hearly _ hin (.inl ⟨k, rfl, job, hj, hne, hnil, fun t ht _ ↦ hended t ht⟩)
    | result auth tid claimToken body =>
      refine ((wp_submitTaskResult s auth tid claimToken body).elim hs).storedAt
        (fun task hacc ht hp ↦ ?_) hfin hs₀ j
      exact hearly _ hin (.inr ⟨auth, tid, claimToken, body, task, rfl, hacc, ht, hp⟩)
    | register | claim | download | health | availableNodes | sweep | tick | expireTask =>
      refine hquiet fun l hl ↦ ?_
      cases l with
      | createJob | createTask | refresh =>
        simp [Action.may, Label.ofClaim, Label.stale, Label.drain] at hl
      | _ => trivial

/-- What a report that a job is done promises: all announced tasks exist and are finished, the
status says whether one has failed, and every later refresh says the same. -/
structure Truthful (tr : List Entry) (s : Store) (j : JobId) (job : Job) (status : JobStatus)
    (counts : Counts) : Prop where
  whole : Whole s j job
  completed : status = .completed ↔
    ∀ t ∈ s.jobTasks j, ∃ task, s.task t = some task ∧ task.status = .completed
  failed : status = .failed ↔
    ∃ t ∈ s.jobTasks j, ∃ task, s.task t = some task ∧ task.status = .failed
  stable : ∀ tr' s', Later tr s tr' s' → CreatedByLoop (tr ++ tr') →
    (∀ e ∈ tr', ∀ tid, e.action ≠ .expireTask tid) →
    ∀ summary s'', Runs (refreshJobStatus j) s' summary s'' →
      summary.status = status ∧ summary.counts = counts

omit [Sha256] in
theorem runs_refreshJobStatus {summary : JobSummary} (h : Runs (refreshJobStatus j) s summary s') :
    summary = s.jobSummary j := by
  have hwp : wp (refreshJobStatus j) (fun summary _ ↦ summary = s.jobSummary j) s := by
    rw [wp_refreshJobStatus]
  exact hwp.elim h

theorem Run.truthful (h : Run tr s) {job : Job} (hj : s.job j = some job) (hw : Whole s j job)
    (hdone : (s.jobSummary j).done = true) :
    Truthful tr s j job (s.jobSummary j).status (s.jobSummary j).counts where
  whole := hw
  completed := by
    have hfailed := jobSummary_status_failed hdone
    rcases jobSummary_status_done.mp hdone with hs | hs
    · simp only [hs, true_iff, reduceCtorEq, false_iff] at hfailed ⊢
      intro t ht
      obtain ⟨task, hstored, hf⟩ := hw.ended t ht
      refine ⟨task, hstored, ?_⟩
      cases hst : task.status with
      | completed => rfl
      | failed => exact absurd ⟨t, ht, task, hstored, hst⟩ hfailed
      | _ =>
        rw [hst] at hf
        cases hf
    · obtain ⟨t, ht, task, hstored, hst⟩ := hfailed.mp hs
      simp only [hs, reduceCtorEq, false_iff]
      intro hall
      obtain ⟨task', hstored', hst'⟩ := hall t ht
      rw [hstored, Option.some.injEq] at hstored'
      rw [← hstored', hst] at hst'
      cases hst'
  failed := jobSummary_status_failed hdone
  stable := by
    intro tr' s' hl hloop hkeep summary s'' hruns
    obtain ⟨hlist, htask, -⟩ := hl.whole h hloop hkeep hj hw
    rw [runs_refreshJobStatus hruns, jobSummary_congr hlist htask]
    exact ⟨rfl, rfl⟩

/-- A refresh that reports a job done is right if and only if the loop has created all the
announced tasks; in runs whose refreshes all wait for that, or for a task that is not finished,
the stored status is right too. -/
theorem job_completion_reports (h : Run tr s)
    (hkeep : ∀ e ∈ tr, ∀ tid, e.action ≠ .expireTask tid) (hloop : CreatedByLoop tr) {job : Job}
    (hj : s.job j = some job) :
    (∀ summary s', Runs (refreshJobStatus j) s summary s' → summary.done = true →
      (Truthful tr s j job summary.status summary.counts ↔
        (s.jobTasks j).length = job.totalTasks)) ∧
    ((∀ e ∈ tr, ¬ e.refreshesEarly) → (job.status = .completed ∨ job.status = .failed) →
      Truthful tr s j job job.status (s.jobSummary j).counts) := by
  refine ⟨fun summary s' hruns hdone ↦ ⟨fun ht ↦ ht.whole.total, fun htotal ↦ ?_⟩,
    fun hearly hstatus ↦ ?_⟩
  · rw [runs_refreshJobStatus hruns] at hdone ⊢
    exact h.truthful hj ⟨htotal, (jobSummary_done.mp hdone).2⟩ hdone
  · obtain ⟨hw, hs⟩ := h.storedAt hkeep hloop hearly j job hj hstatus
    rw [hs] at hstatus ⊢
    exact h.truthful hj hw (jobSummary_status_done.mpr hstatus)

end Runs

/-- A run that creates one job. -/
theorem createdByLoop_of_one {tr : List Entry} {a : CreateJob} {planned : List CreateTask}
    (htotal : a.totalTasks = planned.length) (hjob : ∀ p ∈ planned, p.jobId = a.jobId)
    (hinit : (tr.map (·.action)).filter (·.creates a.jobId) <+: queuePlannedTasks a planned)
    (hother : ∀ x ∈ tr.map (·.action), ∀ j, j ≠ a.jobId → x.creates j = false) :
    CreatedByLoop tr := by
  intro j
  by_cases hj : j = a.jobId
  · subst hj
    exact ⟨a, planned, rfl, htotal, hjob, hinit⟩
  · refine ⟨{ a with jobId := j, totalTasks := 0 }, [], rfl, rfl,
      fun p hp ↦ absurd hp List.not_mem_nil, ?_⟩
    rw [List.filter_eq_nil_iff.mpr fun x hx ↦ by rw [hother x hx j hj]; exact Bool.false_ne_true]
    exact List.nil_prefix

open Sample in
theorem job_completion_reports_failed :
    let tr := performed 200 server [.tick second, join nodeA keyA none, .createJob (newJob 1),
      create task1 (some nodeA), .claim authA claim1 download1,
      .result authA task1 (some claim1) (.failure "boom")]
    let s := lastStore server tr
    (s.jobSummary job).done = true ∧ ∃ job', s.job job = some job' ∧
      ∀ summary s', Runs (refreshJobStatus job) s summary s' → summary.done = true →
        (Truthful tr s job job' summary.status summary.counts ↔
          (s.jobTasks job).length = job'.totalTasks) := by
  refine ⟨by decide +kernel, ?_⟩
  obtain ⟨job', hj⟩ := Option.isSome_iff_exists.mp (show Option.isSome (Store.job (lastStore server
    (performed 200 server [.tick second, join nodeA keyA none, .createJob (newJob 1),
      create task1 (some nodeA), .claim authA claim1 download1,
      .result authA task1 (some claim1) (.failure "boom")])) job) = true by decide +kernel)
  refine ⟨job', hj, (job_completion_reports (run_performed (by decide +kernel)
    (by decide +kernel)) (fun e he tid ha ↦ ?_) ?_ hj).1⟩
  · have hmem := performed_actions he
    rw [ha] at hmem
    simp [join, create] at hmem
  · refine @createdByLoop_of_one _ (newJob 1) [planned task1 (some nodeA)] rfl
      (by simp [planned, newJob]) ?_ ?_
    · rw [performed_map_action (by decide +kernel)]
      exact ⟨[], rfl⟩
    · rw [performed_map_action (by decide +kernel)]
      intro x hx j hj
      simp only [List.mem_cons, List.not_mem_nil, or_false] at hx
      rcases hx with rfl | rfl | rfl | rfl | rfl | rfl <;>
        first | rfl | exact decide_eq_false (Ne.symm hj)

open Sample in
/-- A job of two tasks is reported as failed once its first task has failed, with the second one
not created yet; then it is queued again. -/
theorem job_done_before_created :
    let actions := [.tick second, join nodeA keyA none, .createJob (newJob 2),
      create task1 (some nodeA), .claim authA claim1 download1,
      .result authA task1 (some claim1) (.failure "boom")]
    let tr := performed 200 server actions
    let s := lastStore server tr
    let s' := lastStore server (performed 200 server (actions ++ [create task2 none]))
    Run tr s ∧ CreatedByLoop tr ∧ (s.jobSummary job).done = true ∧
      (s.job job).map (fun j ↦ (j.status, j.totalTasks)) = some (.failed, 2) ∧
      (s.jobTasks job).length = 1 ∧ (s'.jobSummary job).status = .queued := by
  refine ⟨run_performed (by decide +kernel) (by decide +kernel), ?_, by decide +kernel,
    by decide +kernel, by decide +kernel, by decide +kernel⟩
  refine @createdByLoop_of_one _ (newJob 2) [planned task1 (some nodeA), planned task2 none] rfl
    (by simp [planned, newJob]) ?_ ?_
  · rw [performed_map_action (by decide +kernel)]
    exact ⟨[create task2 none], rfl⟩
  · rw [performed_map_action (by decide +kernel)]
    intro x hx j hj
    simp only [List.mem_cons, List.not_mem_nil, or_false] at hx
    rcases hx with rfl | rfl | rfl | rfl | rfl | rfl <;>
      first | rfl | exact decide_eq_false (Ne.symm hj)

end TandemAio
