import TandemAio.Receipts
import TandemAio.Startable
import TandemAio.StartJob

/-!
# Whose quota a job is charged to

Runs of whole `/start/` requests, of the requests of nodes, and of other changes to the tables.
-/

open Reasoning Reasoning.Prog

namespace TandemAio

/-- A request with its answer, or what else may happen. -/
inductive QuotaEvent
  | start (limits : QuotaLimits) (r : StartRequest) (draws : StartDraws) (reply : StartReply)
  | act (a : Action) (response : Response)
  /-- Keys come and go, and deployments are made and removed. -/
  | tables (userApi : ApiKey → Option Nat) (deployment : Pid → Option Deployment)
  /-- The window of a counter has passed. -/
  | expireUsage (apiKey : ApiKey)

/-- A step of `start` itself. -/
def Action.ofStart : Action → Bool
  | .createJob _ | .createTask _ => true
  | _ => false

inductive QuotaStep [Sha256] [AsciiFold] [Storage] (s : Store) : QuotaEvent → Store → Prop
  | start {limits r draws reply s'} : Runs (start limits r draws) s reply s' →
      QuotaStep s (.start limits r draws reply) s'
  | act {a response s'} : a.ofStart = false → a.NewTo s → Runs (handle a) s response s' →
      QuotaStep s (.act a response) s'
  /-- No row of a deployment is ever changed. -/
  | tables {userApi deployment} :
      (∀ pid d d', s.deployment pid = some d → deployment pid = some d' → d' = d) →
      QuotaStep s (.tables userApi deployment) { s with userApi, deployment }
  | expireUsage (apiKey) : QuotaStep s (.expireUsage apiKey)
      { s with instructionsUsed := Function.update s.instructionsUsed apiKey none }

/-- One step of a run, with the states around it. -/
structure QuotaEntry where
  before : Store
  event : QuotaEvent
  after : Store

/-- The id of the job that an event draws. -/
def QuotaEvent.jobId : QuotaEvent → Option JobId
  | .start _ _ draws _ => some draws.jobId
  | _ => none

/-- The event makes a deployment under the pid. -/
def QuotaEvent.Makes (s : Store) (pid : Pid) : QuotaEvent → Prop
  | .tables _ deployment => s.deployment pid = none ∧ deployment pid ≠ none
  | _ => False

/-- A run of requests. No job id is drawn twice, and no pid. -/
inductive QuotaRun [Sha256] [AsciiFold] [Storage] : List QuotaEntry → Store → Prop
  | start (deployment userApi nodeRegistrationToken) :
      QuotaRun [] (Store.initial deployment userApi nodeRegistrationToken)
  | step {tr s e s'} : QuotaRun tr s →
      (∀ jobId, e.jobId = some jobId → ∀ x ∈ tr, x.event.jobId ≠ some jobId) →
      (∀ pid, e.Makes s pid → ∀ x ∈ tr, x.before.deployment pid = none) →
      QuotaStep s e s' → QuotaRun (tr ++ [⟨s, e, s'⟩]) s'

section Steps

variable [Sha256] [AsciiFold] [Storage] {tr : List QuotaEntry} {s s' : Store}

theorem QuotaRun.act (h : QuotaRun tr s) {a : Action} {response : Response}
    (ha : a.ofStart = false) (hnew : a.NewTo s) (hr : Runs (handle a) s response s') :
    QuotaRun (tr ++ [⟨s, .act a response, s'⟩]) s' := by
  refine h.step (fun jobId hjobId ↦ ?_) (fun pid hmakes ↦ hmakes.elim) (.act ha hnew hr)
  cases hjobId

theorem quotaRun_started (h : QuotaRun tr s) {limits : QuotaLimits} {r : StartRequest}
    {draws : StartDraws} {reply : StartReply}
    (hfresh : some draws.jobId ∉ tr.map fun x ↦ x.event.jobId)
    (hr : Runs (start limits r draws) s reply s') :
    QuotaRun (tr ++ [⟨s, .start limits r draws reply, s'⟩]) s' := by
  refine h.step (fun jobId hjobId x hx hsame ↦ hfresh ?_) (fun pid hmakes ↦ hmakes.elim) (.start hr)
  rw [show some draws.jobId = some jobId from hjobId, ← hsame]
  exact List.mem_map_of_mem hx

end Steps

/-- A label of a request other than `/start/`. -/
def Label.creates : Label → Bool
  | .createTask _ => true
  | _ => false

/-! ## Tasks keep what they were created with -/

section Kept

variable {β : Type} {f : Task → β} {s s' : Store}

/-- What no edit of a task changes is from before the move, or from its creation. -/
theorem Move.kept {l : Label} (h : Move s l s') (hl : l.creates = false)
    (hf : ∀ {s t task task' l}, Edit s t task l task' → f task' = f task) {t : Tid} {task' : Task}
    (ht : s'.task t = some task') : ∃ task, s.task t = some task ∧ f task = f task' := by
  rcases h.task_cases ht with ⟨hs, -⟩ | ⟨a, rfl, -⟩ | ⟨task, hs, hedit⟩
  · exact ⟨task', hs, rfl⟩
  · cases hl
  · exact ⟨task, hs, (hf hedit).symm⟩

theorem Via.kept {P : Label → Prop} (h : Via P s s') (hP : ∀ l, P l → l.creates = false)
    (hf : ∀ {s t task task' l}, Edit s t task l task' → f task' = f task) {t : Tid} {task' : Task}
    (ht : s'.task t = some task') : ∃ task, s.task t = some task ∧ f task = f task' := by
  refine h.invariant (I := fun s₁ ↦ ∀ t task', s₁.task t = some task' →
    ∃ task, s.task t = some task ∧ f task = f task') ?_ (fun t task ht ↦ ⟨task, ht, rfl⟩) t task' ht
  intro s₁ l s₂ hl hm h₁ t task₂ ht₂
  obtain ⟨task₁, ht₁, hf₁⟩ := hm.kept (hP l hl) hf ht₂
  obtain ⟨task, ht, hf'⟩ := h₁ t task₁ ht₁
  exact ⟨task, ht, hf'.trans hf₁⟩

/-- The tasks that `create_task` adds. -/
theorem createTasks_task [Storage] {creates : List CreateTask} {t : Tid} {task' : Task}
    (ht : (s.createTasks creates).2.task t = some task') :
    s.task t = some task' ∨ ∃ a ∈ creates, ∃ now, task' = a.task now := by
  induction creates generalizing s with
  | nil => exact .inl ht
  | cons a rest ih =>
    have hfirst : ∀ {task'}, (s.createTask a).2.task t = some task' →
        s.task t = some task' ∨ ∃ now, task' = a.task now := by
      intro task' ht
      unfold Store.createTask at ht
      split at ht
      · exact .inl ht
      · split at ht
        · exact .inl ht
        · rw [Store.create_task] at ht
          rcases eq_of_update_some ht with hs | ⟨-, hnew⟩
          · exact .inl hs
          · exact .inr ⟨_, (Option.some.inj hnew).symm⟩
    have hhere : ∀ {task'}, (s.createTask a).2.task t = some task' →
        s.task t = some task' ∨ ∃ b ∈ a :: rest, ∃ now, task' = b.task now := fun ht ↦
      (hfirst ht).imp_right fun hnew ↦ ⟨a, List.mem_cons_self, hnew⟩
    rw [Store.createTasks] at ht
    split at ht
    · rcases ih ht with hmid | ⟨b, hb, hnew⟩
      · exact hhere hmid
      · exact .inr ⟨b, List.mem_cons_of_mem a hb, hnew⟩
    · exact hhere ht

end Kept

/-! ## Tasks keep their job and their deployment -/

/-- Every task is from before, with the job and the deployment it had. -/
def SameOrigin (s s' : Store) : Prop :=
  ∀ t task', s'.task t = some task' →
    ∃ task, s.task t = some task ∧ task.jobId = task'.jobId ∧ task.pid = task'.pid

theorem SameOrigin.refl (s : Store) : SameOrigin s s := fun _ task' h ↦ ⟨task', h, rfl, rfl⟩

theorem SameOrigin.trans {s s₁ s₂ : Store} (h : SameOrigin s s₁) (h' : SameOrigin s₁ s₂) :
    SameOrigin s s₂ := by
  intro t task₂ ht₂
  obtain ⟨task₁, ht₁, hjob₁, hpid₁⟩ := h' t task₂ ht₂
  obtain ⟨task, ht, hjob, hpid⟩ := h t task₁ ht₁
  exact ⟨task, ht, hjob.trans hjob₁, hpid.trans hpid₁⟩

theorem Edit.origin {s : Store} {t : Tid} {task task' : Task} {l : Label}
    (h : Edit s t task l task') : (task'.jobId, task'.pid) = (task.jobId, task.pid) := by
  cases h <;> rfl

theorem Move.sameOrigin {s s' : Store} {l : Label} (h : Move s l s') (hl : l.creates = false) :
    SameOrigin s s' := by
  intro t task' ht
  obtain ⟨task, hs, hsame⟩ := h.kept hl Edit.origin ht
  exact ⟨task, hs, Prod.mk.inj hsame⟩

theorem Via.origin {P : Label → Prop} {s s' : Store} (h : Via P s s')
    (hP : ∀ l, P l → l.creates = false) : SameOrigin s s' := by
  intro t task' ht
  obtain ⟨task, hs, hsame⟩ := h.kept hP Edit.origin ht
  exact ⟨task, hs, Prod.mk.inj hsame⟩

theorem Move.deployment {s s' : Store} {l : Label} (h : Move s l s') :
    s'.deployment = s.deployment := by
  cases h <;> rfl

theorem Via.sameOrigin {P : Label → Prop} {s s' : Store} (h : Via P s s')
    (hP : ∀ l, P l → l.creates = false) : SameOrigin s s' ∧ s'.deployment = s.deployment := by
  refine ⟨h.origin hP, ?_⟩
  exact h.invariant (I := fun s₁ ↦ s₁.deployment = s.deployment)
    (fun _ _ _ _ hm hs ↦ hm.deployment.trans hs) rfl

theorem staleTasks_sameOrigin {s s' : Store} (h : Runs requeueStaleTasks s () s') :
    SameOrigin s s' ∧ s'.deployment = s.deployment := by
  refine ((wp_requeueStaleTasks s).elim h).sameOrigin fun l hl ↦ ?_
  cases l <;> first | rfl | exact hl.elim

theorem Action.may_creates [Sha256] {s : Store} {a : Action} {r : Response} {l : Label}
    (ha : a.ofStart = false) (h : a.may s r l) : l.creates = false := by
  cases l with
  | createTask a' =>
    rw [h.createTask] at ha
    cases ha
  | _ => rfl

section Started

variable [AsciiFold] [Storage] {s s' : Store} {limits : QuotaLimits} {r : StartRequest}
  {draws : StartDraws} {reply : StartReply}

omit [AsciiFold] in
theorem createTasks_deployment {creates : List CreateTask} :
    (s.createTasks creates).2.deployment = s.deployment := by
  induction creates generalizing s with
  | nil => rfl
  | cons a rest ih =>
    have hfirst : (s.createTask a).2.deployment = s.deployment := by
      unfold Store.createTask
      split
      · rfl
      · split <;> rfl
    rw [Store.createTasks]
    split
    · exact ih.trans hfirst
    · exact hfirst

omit [AsciiFold] in
theorem createTasks_origin {creates : List CreateTask} {jobId : JobId} {pid : Pid}
    (h : ∀ a ∈ creates, a.jobId = jobId ∧ a.pid = pid) :
    (s.createTasks creates).2.deployment = s.deployment ∧
      ∀ t task', (s.createTasks creates).2.task t = some task' →
        s.task t = some task' ∨ task'.jobId = jobId ∧ task'.pid = pid := by
  refine ⟨createTasks_deployment, fun t task' ht ↦ ?_⟩
  rcases createTasks_task ht with hold | ⟨a, ha, now, rfl⟩
  · exact .inl hold
  · exact .inr (h a ha)

omit [AsciiFold] [Storage] in
/-- What a request that is not refused has passed. -/
theorem StartRequest.check_ok {checked : StartChecked} (h : r.check limits s = .ok checked) :
    r.pid = some checked.pid ∧ ∃ apiKey userId deployment deploymentKey,
      r.apiKey = some apiKey ∧ (s.checkQuota limits apiKey).1 = true ∧
      s.deployment checked.pid = some deployment ∧ deployment.apiKey = some deploymentKey ∧
      s.userApi apiKey = some userId ∧ s.userApi deploymentKey = some userId := by
  unfold StartRequest.check at h
  split at h
  · cases h
  · cases h
  · rename_i toml pid htoml hpid
    cases hclient : s.requireUserApiKey r.apiKey with
    | error e =>
      rw [hclient] at h
      cases h
    | ok client =>
      obtain ⟨apiKey, userId⟩ := client
      rw [hclient] at h
      dsimp only at h
      split at h
      · cases h
      · rename_i hquota
        cases hdeployment : s.deployment pid with
        | none =>
          rw [hdeployment] at h
          cases h
        | some deployment =>
          rw [hdeployment] at h
          dsimp only at h
          split at h
          · cases h
          · cases h
          · rename_i haccess
            obtain ⟨deploymentKey, hkey, howner⟩ := ensureDeploymentAccess_eq_none.mp haccess
            have hchecked : checked.pid = pid := by
              split at h
              · cases h
              · cases h
                rfl
            have huser : r.apiKey = some apiKey ∧ s.userApi apiKey = some userId := by
              unfold Store.requireUserApiKey at hclient
              split at hclient
              · cases hclient
              · rename_i key hapi
                split at hclient
                · cases hclient
                · rename_i user huser
                  cases hclient
                  exact ⟨hapi, huser⟩
            rw [hchecked]
            exact ⟨hpid, apiKey, userId, deployment, deploymentKey, huser.1,
              by simpa using hquota, hdeployment, hkey, huser.2, howner⟩

/-- A task after a request is from before, or one of its job. -/
theorem Started.origin (h : Started limits r draws s reply s') :
    s'.deployment = s.deployment ∧ ∀ t task', s'.task t = some task' →
      (∃ task, s.task t = some task ∧ task.jobId = task'.jobId ∧ task.pid = task'.pid) ∨
        task'.jobId = draws.jobId ∧ r.pid = some task'.pid := by
  have hplanned : ∀ {checked files s₁ s₂ planned b}, r.check limits s = .ok checked →
      Runs requeueStaleTasks s () s₁ →
      (draws.jobStore s₁ checked planned).createTasks
        (draws.creates files checked planned) = (b, s₂) →
      s₂.deployment = s.deployment ∧ ∀ t task', s₂.task t = some task' →
        (∃ task, s.task t = some task ∧ task.jobId = task'.jobId ∧ task.pid = task'.pid) ∨
          task'.jobId = draws.jobId ∧ r.pid = some task'.pid := by
    intro checked runtime s₁ s₂ planned b hcheck hstale hcreated
    have hcreates : ∀ a ∈ draws.creates runtime checked planned,
        a.jobId = draws.jobId ∧ a.pid = checked.pid := by
      intro a ha
      unfold StartDraws.creates at ha
      obtain ⟨i, hi, rfl⟩ := List.mem_mapIdx.mp ha
      exact ⟨rfl, rfl⟩
    obtain ⟨horigin, hdeployment⟩ := staleTasks_sameOrigin hstale
    have hnew := createTasks_origin (s := draws.jobStore s₁ checked planned) hcreates
    rw [hcreated] at hnew
    refine ⟨hnew.1.trans hdeployment, fun t task' ht ↦ ?_⟩
    rcases hnew.2 t task' ht with hold | ⟨hjob, hpid⟩
    · exact Or.inl (horigin t task' hold)
    · exact Or.inr ⟨hjob, hpid ▸ (StartRequest.check_ok hcheck).1⟩
  cases h with
  | refused => exact ⟨rfl, fun t task' ht ↦ Or.inl ⟨task', ht, rfl, rfl⟩⟩
  | unplanned _ _ hstale =>
    obtain ⟨horigin, hdeployment⟩ := staleTasks_sameOrigin hstale
    exact ⟨hdeployment, fun t task' ht ↦ Or.inl (horigin t task' ht)⟩
  | queued hplans hcreated =>
    have hcore := hplanned hplans.check hplans.stale hcreated
    exact hcore
  | raised hplans hcreated => exact hplanned hplans.check hplans.stale hcreated

/-- An accepted request has passed its checks. -/
theorem Started.checked (h : Started limits r draws s reply s') (haccepted : reply.job ≠ none) :
    ∃ checked, r.check limits s = .ok checked := by
  cases h with
  | refused hno => exact absurd hno haccepted
  | unplanned hno => exact absurd hno haccepted
  | queued hplans => exact ⟨_, hplans.check⟩
  | raised => exact absurd rfl haccepted

end Started

/-! ## Runs -/

section Runs

variable [Sha256] [AsciiFold] [Storage] {tr tr₁ tr₂ : List QuotaEntry} {s s' : Store}
  {e : QuotaEntry} {event : QuotaEvent}

/-- Where the tasks of a state come from: the requests that have drawn their jobs. -/
def Originated (tr : List QuotaEntry) (s : Store) : Prop :=
  ∀ t task, s.task t = some task → ∃ e ∈ tr, ∃ limits r draws reply,
    e.event = .start limits r draws reply ∧ draws.jobId = task.jobId ∧ r.pid = some task.pid

/-- A step keeps a deployment as it is recorded, removes it, or makes it. -/
theorem QuotaStep.deployment (h : QuotaStep s event s') (pid : Pid) :
    s'.deployment pid = s.deployment pid ∨ s'.deployment pid = none ∨ event.Makes s pid := by
  cases h with
  | start hruns =>
    left
    rw [((wp_start _ _ _).elim hruns).origin.1]
  | act hact hnew hruns =>
    left
    rw [((Runs.via hnew hruns).sameOrigin fun l ↦ Action.may_creates hact).2]
  | @tables userApi deployment hkept =>
    cases hafter : deployment pid with
    | none => exact Or.inr (Or.inl hafter)
    | some d' =>
      cases hbefore : s.deployment pid with
      | none => exact Or.inr (Or.inr ⟨hbefore, by rw [hafter]; exact Option.some_ne_none d'⟩)
      | some d =>
        left
        rw [← hkept pid d d' hbefore hafter]
        exact hafter
  | expireUsage => exact Or.inl rfl

theorem QuotaRun.originated (h : QuotaRun tr s) : Originated tr s := by
  induction h with
  | start => exact fun t task ht ↦ by cases ht
  | @step tr s event s' _ _ _ hstep ih =>
    have hkeep : ∀ t (task' : Task), (∃ task, s.task t = some task ∧ task.jobId = task'.jobId ∧
        task.pid = task'.pid) → ∃ e ∈ tr ++ [⟨s, event, s'⟩], ∃ limits r draws reply,
          e.event = .start limits r draws reply ∧ draws.jobId = task'.jobId ∧
            r.pid = some task'.pid := by
      rintro t task' ⟨task, ht, hjob, hpid⟩
      rw [← hjob, ← hpid]
      obtain ⟨e, he, horigin⟩ := ih t task ht
      exact ⟨e, List.mem_append_left _ he, horigin⟩
    intro t task' ht
    cases hstep with
    | @start limits r draws reply _ hruns =>
      rcases ((wp_start _ _ _).elim hruns).origin.2 t task' ht with hold | ⟨hjob, hpid⟩
      · exact hkeep t task' hold
      · exact ⟨_, List.mem_append_right _ (List.mem_singleton_self _), limits, r, draws, reply,
          rfl, hjob.symm, hpid⟩
    | act hact hnew hruns =>
      exact hkeep t task'
        (((Runs.via hnew hruns).sameOrigin fun l ↦ Action.may_creates hact).1 t task' ht)
    | tables => exact hkeep t task' ⟨task', ht, rfl, rfl⟩
    | expireUsage => exact hkeep t task' ⟨task', ht, rfl, rfl⟩

/-- The last step of a run. -/
theorem QuotaRun.last (h : QuotaRun (tr ++ [e]) s) :
    QuotaRun tr e.before ∧ QuotaStep e.before e.event e.after ∧ e.after = s ∧
      ∀ pid, e.event.Makes e.before pid → ∀ x ∈ tr, x.before.deployment pid = none := by
  generalize hall : tr ++ [e] = all at h
  cases h with
  | start => simp at hall
  | step hrun _ hmakes hstep =>
    obtain ⟨rfl, hlast⟩ := List.append_inj' hall rfl
    cases hlast
    exact ⟨hrun, hstep, rfl, hmakes⟩

/-- An entry of a run starts where the run before it ends. -/
theorem QuotaRun.split (h : QuotaRun (tr₁ ++ e :: tr₂) s) :
    QuotaRun tr₁ e.before ∧ QuotaStep e.before e.event e.after := by
  induction tr₂ using List.reverseRecOn generalizing s with
  | nil => exact ⟨h.last.1, h.last.2.1⟩
  | append_singleton tr₂ last ih =>
    have hassoc : tr₁ ++ e :: (tr₂ ++ [last]) = (tr₁ ++ e :: tr₂) ++ [last] := by simp
    rw [hassoc] at h
    exact ih h.last.1

/-- No two requests draw one job. -/
theorem QuotaRun.jobId_inj (h : QuotaRun tr s) {x y : QuotaEntry} {jobId : JobId} (hx : x ∈ tr)
    (hy : y ∈ tr) (hxjob : x.event.jobId = some jobId) (hyjob : y.event.jobId = some jobId) :
    x = y := by
  induction h with
  | start => cases hx
  | step _ hfresh _ _ ih =>
    rcases List.mem_append.mp hx with hx | hx
    · rcases List.mem_append.mp hy with hy | hy
      · exact ih hx hy
      · rw [List.mem_singleton.mp hy] at hyjob
        exact absurd hxjob (hfresh jobId hyjob x hx)
    · rcases List.mem_append.mp hy with hy | hy
      · rw [List.mem_singleton.mp hx] at hxjob
        exact absurd hyjob (hfresh jobId hxjob y hy)
      · rw [List.mem_singleton.mp hx, List.mem_singleton.mp hy]

/-- A deployment stays as it is recorded until it is removed, and no other takes its pid. -/
theorem QuotaRun.deployment (h : QuotaRun (tr₁ ++ e :: tr₂) s) {pid : Pid} {d : Deployment}
    (hd : e.before.deployment pid = some d) :
    s.deployment pid = some d ∨ s.deployment pid = none := by
  induction tr₂ using List.reverseRecOn generalizing s with
  | nil =>
    obtain ⟨-, hstep, rfl, -⟩ := h.last
    rcases hstep.deployment pid with hsame | hgone | hmakes
    · exact Or.inl (hsame.trans hd)
    · exact Or.inr hgone
    · cases hevent : e.event with
      | tables userApi deployment =>
        rw [hevent] at hmakes
        rw [hmakes.1] at hd
        cases hd
      | start | act | expireUsage =>
        rw [hevent] at hmakes
        exact hmakes.elim
  | append_singleton tr₂ last ih =>
    have hassoc : tr₁ ++ e :: (tr₂ ++ [last]) = (tr₁ ++ e :: tr₂) ++ [last] := by simp
    rw [hassoc] at h
    obtain ⟨hrun, hstep, rfl, hfresh⟩ := h.last
    rcases hstep.deployment pid with hsame | hgone | hmakes
    · rw [hsame]
      exact ih hrun
    · exact Or.inr hgone
    · have hnone := hfresh pid hmakes e (List.mem_append_right _ List.mem_cons_self)
      rw [hnone] at hd
      cases hd

/-- A request is made with the key that is recorded on its deployment. -/
def QuotaEntry.OwnKey (e : QuotaEntry) : Prop :=
  ∀ limits r draws reply pid apiKey, e.event = .start limits r draws reply → r.pid = some pid →
    (e.before.deployment pid).bind (·.apiKey) = some apiKey → r.apiKey = some apiKey

omit [AsciiFold] [Storage] in
/-- What an accepted result charges. -/
theorem Submitted.charged {auth : NodeAuth} {tid : Tid} {claimToken : Option Token}
    {body : ResultBody} {response : Response} {task : Task} {apiKey : ApiKey}
    (h : Submitted s auth tid claimToken body response s') (hr : response.ended = some .completed)
    (ht : s.task tid = some task) (hkey : (s.deployment task.pid).bind (·.apiKey) = some apiKey) :
    ∃ amount, s'.instructionsUsed = Function.update s.instructionsUsed apiKey
      (some ((s.instructionsUsed apiKey).getD 0 + amount)) := by
  cases h with
  | refused hf => cases response <;> simp [Response.ended, Response.refusal] at hr hf
  | rejected => cases hr
  | failed => cases hr
  | @completed _ _ _ _ s₁ _ hmay _ hcharge hs₂ =>
    cases ht.symm.trans hmay.stored
    rw [Store.chargeFor, hkey] at hcharge
    obtain ⟨amount, -, rfl⟩ := Option.map_eq_some_iff.mp hcharge
    subst hs₂
    exact ⟨amount, rfl⟩

omit [AsciiFold] [Storage] in
/-- Without the deployment nothing is charged. -/
theorem Submitted.uncharged {auth : NodeAuth} {tid : Tid} {claimToken : Option Token}
    {body : ResultBody} {response : Response} {task : Task}
    (h : Submitted s auth tid claimToken body response s') (hr : response.ended = some .completed)
    (ht : s.task tid = some task) (hgone : s.deployment task.pid = none) :
    s'.instructionsUsed = s.instructionsUsed := by
  cases h with
  | refused hf => cases response <;> simp [Response.ended, Response.refusal] at hr hf
  | rejected => cases hr
  | failed => cases hr
  | @completed _ _ _ _ s₁ _ hmay _ hcharge hs₂ =>
    cases ht.symm.trans hmay.stored
    rw [Store.chargeFor, hgone] at hcharge
    cases hcharge
    subst hs₂
    rfl

omit [Sha256] [AsciiFold] [Storage] in
/-- A request looks at the quota of its own key only. -/
theorem StartRequest.check_congr {limits limits' : QuotaLimits} {r : StartRequest}
    (h : ∀ apiKey, r.apiKey = some apiKey → limits' apiKey = limits apiKey) :
    r.check limits' s = r.check limits s := by
  unfold StartRequest.check
  cases hclient : s.requireUserApiKey r.apiKey with
  | error e => rfl
  | ok client =>
    have hown : r.apiKey = some client.1 := by
      unfold Store.requireUserApiKey at hclient
      split at hclient
      · cases hclient
      · rename_i hapi
        split at hclient
        · cases hclient
        · cases hclient
          exact hapi
    have hquota : s.checkQuota limits' client.1 = s.checkQuota limits client.1 := by
      unfold Store.checkQuota
      rw [h _ hown]
    dsimp only
    rw [hquota]

omit [Sha256] in
/-- Limits matter to a request in its checks only. -/
theorem runs_start_limits {limits limits' : QuotaLimits} {r : StartRequest} {draws : StartDraws}
    {reply : StartReply} (h : Runs (start limits r draws) s reply s')
    (hcheck : r.check limits' s = r.check limits s) :
    Runs (start limits' r draws) s reply s' := by
  have hwp : wp (start limits r draws) (fun a s₁ ↦ a = reply ∧ s₁ = s') s := ⟨_, _, h, rfl, rfl⟩
  have hwp' : wp (start limits' r draws) (fun a s₁ ↦ a = reply ∧ s₁ = s') s := by
    unfold start at hwp ⊢
    rw [wp_bind, Server.wp_read] at hwp ⊢
    rw [hcheck]
    exact hwp
  obtain ⟨a, s₁, hruns, rfl, rfl⟩ := hwp'
  exact hruns

end Runs

section Requests

variable [Sha256] [AsciiFold] [Storage] {tr₁ tr₂ : List QuotaEntry} {s s' : Store}
  {e : QuotaEntry} {limits : QuotaLimits} {r : StartRequest} {draws : StartDraws}
  {reply : StartReply}

/-- The tasks of a job have the deployment that its request names. -/
theorem QuotaRun.pid_of_job {tid : Tid} {task : Task} (h : QuotaRun (tr₁ ++ e :: tr₂) s)
    (hstart : e.event = .start limits r draws reply) (htask : s.task tid = some task)
    (hjob : task.jobId = draws.jobId) : r.pid = some task.pid := by
  obtain ⟨x, hx, limits', r', draws', reply', hevent, hsame, hpid⟩ := h.originated tid task htask
  have hx' : x = e := by
    apply h.jobId_inj hx (List.mem_append_right _ List.mem_cons_self)
    · rw [hevent]
      exact congrArg some (hsame.trans hjob)
    · rw [hstart]
      rfl
  rw [hx', hstart] at hevent
  cases hevent
  exact hpid

omit [Sha256] [AsciiFold] [Storage] in
theorem QuotaEntry.ownKey_iff {pid : Pid} {apiKey recorded : ApiKey}
    (hstart : e.event = .start limits r draws reply) (hpid : r.pid = some pid)
    (hapi : r.apiKey = some apiKey)
    (hrecorded : (e.before.deployment pid).bind (·.apiKey) = some recorded) :
    e.OwnKey ↔ apiKey = recorded := by
  constructor
  · intro hown
    have hcaller := hown limits r draws reply pid recorded hstart hpid hrecorded
    exact Option.some.inj (hapi.symm.trans hcaller)
  · rintro rfl limits' r' draws' reply' pid' apiKey' hevent hpid' hkey'
    rw [hstart] at hevent
    cases hevent
    cases hpid.symm.trans hpid'
    rw [hapi, ← hrecorded, hkey']

omit [Sha256] in
/-- A request goes the same way if another key has used up its limit. -/
theorem runs_start_exhausted {apiKey other : ApiKey} (h : Runs (start limits r draws) s reply s')
    (hapi : r.apiKey = some apiKey) (hne : apiKey ≠ other) :
    ∃ limits', Runs (start limits' r draws) s reply s' ∧
      (s.checkQuota limits' other).1 = false := by
  -- the limit of the other key is what it has used
  refine ⟨Function.update limits other (some ((s.instructionsUsed other).getD 0)),
    runs_start_limits h (StartRequest.check_congr fun k hk ↦ ?_), ?_⟩
  · rw [hapi, Option.some.injEq] at hk
    rw [← hk]
    exact Function.update_of_ne hne _ _
  · simp [Store.checkQuota]

end Requests

/-- An accepted result of a job goes to the counter of the key that its deployment had when the job
was accepted, or nowhere if the deployment has been removed since.  That counter was below its limit
then if the request was made with the key itself; and a request that was made with another key is
accepted all the same where the limit of the charged key is used up. -/
theorem charged_was_under_quota [Sha256] [AsciiFold] [Storage] {tr₁ tr₂ tr₃ : List QuotaEntry}
    {s : Store} {e₁ e₂ : QuotaEntry} {limits : QuotaLimits} {r : StartRequest}
    {draws : StartDraws} {reply : StartReply} {auth : NodeAuth} {tid : Tid}
    {claimToken : Option Token} {body : ResultBody} {response : Response} {task : Task}
    (h : QuotaRun (tr₁ ++ e₁ :: (tr₂ ++ e₂ :: tr₃)) s)
    (hstart : e₁.event = .start limits r draws reply) (haccepted : reply.job ≠ none)
    (hresult : e₂.event = .act (.result auth tid claimToken body) response)
    (hcompleted : response.ended = some .completed) (htask : e₂.before.task tid = some task)
    (hjob : task.jobId = draws.jobId) :
    ∃ apiKey, (e₁.before.deployment task.pid).bind (·.apiKey) = some apiKey ∧
      (e₂.before.deployment task.pid = none ∧
          e₂.after.instructionsUsed = e₂.before.instructionsUsed ∨
        ∃ amount, e₂.after.instructionsUsed = Function.update e₂.before.instructionsUsed apiKey
          (some ((e₂.before.instructionsUsed apiKey).getD 0 + amount))) ∧
      (e₁.OwnKey → (e₁.before.checkQuota limits apiKey).1 = true) ∧
      (¬ e₁.OwnKey → ∃ limits', Runs (start limits' r draws) e₁.before reply e₁.after ∧
        (e₁.before.checkQuota limits' apiKey).1 = false) := by
  have hassoc : tr₁ ++ e₁ :: (tr₂ ++ e₂ :: tr₃) = (tr₁ ++ e₁ :: tr₂) ++ e₂ :: tr₃ := by simp
  obtain ⟨-, hstep₁⟩ := h.split
  rw [hassoc] at h
  obtain ⟨hrun, hstep₂⟩ := h.split
  have hpid : r.pid = some task.pid := hrun.pid_of_job hstart htask hjob
  rw [hstart] at hstep₁
  cases hstep₁ with
  | start hruns =>
    obtain ⟨checked, hcheck⟩ := ((wp_start limits r draws).elim hruns).checked haccepted
    obtain ⟨hchecked, apiKey, userId, deployment, deploymentKey, hapi, hquota, hdeployment, hkey,
      -⟩ := StartRequest.check_ok hcheck
    have hsame : checked.pid = task.pid := Option.some.inj (hchecked.symm.trans hpid)
    rw [hsame] at hdeployment
    have hrecorded : (e₁.before.deployment task.pid).bind (·.apiKey) = some deploymentKey := by
      rw [hdeployment]
      exact hkey
    have hown := QuotaEntry.ownKey_iff hstart hpid hapi hrecorded
    refine ⟨deploymentKey, hrecorded, ?_, fun hsameKey ↦ ?_, fun hother ↦ ?_⟩
    · rw [hresult] at hstep₂
      cases hstep₂ with
      | act _ _ hruns₂ =>
        have hsubmitted := (wp_submitTaskResult e₂.before auth tid claimToken body).elim hruns₂
        rcases hrun.deployment hdeployment with hkept | hgone
        · have hlater : (e₂.before.deployment task.pid).bind (·.apiKey) = some deploymentKey := by
            rw [hkept]
            exact hkey
          exact Or.inr (hsubmitted.charged hcompleted htask hlater)
        · exact Or.inl ⟨hgone, hsubmitted.uncharged hcompleted htask hgone⟩
    · rw [← hown.mp hsameKey]
      exact hquota
    · exact runs_start_exhausted hruns hapi fun hsame ↦ hother (hown.mpr hsame)

/-! ## A user with two keys -/

/-- The state that a program which ends leaves. -/
def storeAfter {α : Type} (p : Server α) (s : Store) : Store :=
  ((exec 300 p s).map Prod.snd).getD s

theorem runs_storeAfter {α : Type} {p : Server α} {s : Store} {answer : α}
    (h : (exec 300 p s).map Prod.fst = some answer) : Runs p s answer (storeAfter p s) := by
  obtain ⟨result, hexec, rfl⟩ := Option.map_eq_some_iff.mp h
  have hafter : storeAfter p s = result.2 := by
    unfold storeAfter
    rw [hexec]
    rfl
  rw [hafter]
  exact runs_of_exec hexec

namespace Sample

/-- A file system with the usual limit for a file name, and ASCII texts. -/
scoped instance storage : Storage where
  takesName name := name.toList.length ≤ 255
  encodable _ := true

theorem k1_valid : "k1" ≠ "" ∧ "k1".toList.all idChar = true := by decide
theorem k2_valid : "k2" ≠ "" ∧ "k2".toList.all idChar = true := by decide

def keyOne : ApiKey := name "k1" k1_valid
def keyTwo : ApiKey := name "k2" k2_valid

/-- A deployment under the first key of a user who has two. -/
def twoKeys : Store :=
  Store.initial (fun _ ↦ some ⟨"app", some keyOne⟩)
    (fun apiKey ↦ if apiKey = keyOne ∨ apiKey = keyTwo then some 1 else none) none

/-- The first key has used up its quota. -/
def spent : QuotaLimits := fun apiKey ↦ if apiKey = keyOne then some 0 else none

def startBy (caller : ApiKey) : StartRequest where
  tomlFile := some (.parsed (some "app") "\x7b\x7d")
  pid := some pid
  apiKey := some caller
  files := some (.cloudpickle [⟨"a.pkl", [1]⟩])

theorem jobToken_valid : "job-token" ≠ "" ∧ "job-token".toList.all idChar = true := by decide

def startDraws : StartDraws := ⟨job, name "job-token" jobToken_valid, fun _ ↦ ⟨task1, 1, 2⟩⟩

def startReply : StartReply :=
  .queued pid job (name "job-token" jobToken_valid) "app" [task1] ⟨1, 0, 0, 0, 0⟩ .queued

def ticked : Store := storeAfter (handle (.tick second)) twoKeys
def nodeJoined : Store := storeAfter (handle (join nodeA keyA (some 1))) ticked

def startedBy (limits : QuotaLimits) (caller : ApiKey) : Store :=
  storeAfter (start limits (startBy caller) startDraws) nodeJoined

def claimedBy (limits : QuotaLimits) (caller : ApiKey) : Store :=
  storeAfter (handle (.claim authA claim1 download1)) (startedBy limits caller)

def endedBy (limits : QuotaLimits) (caller : ApiKey) : Store :=
  storeAfter (handle (.result authA task1 (some claim1) receipt1)) (claimedBy limits caller)

/-- The entry of the request, and the entry of the result. -/
def startEntry (limits : QuotaLimits) (caller : ApiKey) : QuotaEntry :=
  ⟨nodeJoined, .start limits (startBy caller) startDraws startReply, startedBy limits caller⟩

def resultEntry (limits : QuotaLimits) (caller : ApiKey) : QuotaEntry :=
  ⟨claimedBy limits caller, .act (.result authA task1 (some claim1) receipt1)
    (.result .completed .completed ⟨0, 0, 0, 1, 0⟩), endedBy limits caller⟩

/-- The answers of the run, as far as they depend on the caller. -/
def answersBy (limits : QuotaLimits) (caller : ApiKey) : Prop :=
  (exec 300 (start limits (startBy caller) startDraws) nodeJoined).map Prod.fst =
      some startReply ∧
    ((exec 300 (handle (.claim authA claim1 download1)) (startedBy limits caller)).map
      Prod.fst).isSome ∧
    (exec 300 (handle (.result authA task1 (some claim1) receipt1)) (claimedBy limits caller)).map
      Prod.fst = some (.result .completed .completed ⟨0, 0, 0, 1, 0⟩)

instance (limits : QuotaLimits) (caller : ApiKey) : Decidable (answersBy limits caller) := by
  unfold answersBy
  infer_instance

/-- A server with a node. -/
def joinedEntries : List QuotaEntry :=
  [⟨twoKeys, .act (.tick second) .silent, ticked⟩,
    ⟨ticked, .act (join nodeA keyA (some 1)) (.registered nodeA keyA), nodeJoined⟩]

theorem joinedRun : QuotaRun joinedEntries nodeJoined := by
  have htick : (exec 300 (handle (.tick second)) twoKeys).map Prod.fst = some .silent := by
    decide +kernel
  have hjoin : (exec 300 (handle (join nodeA keyA (some 1))) ticked).map Prod.fst =
      some (.registered nodeA keyA) := by
    decide +kernel
  have hunused : ticked.UnusedNode nodeA := by
    have hticked : ticked = twoKeys.setClock second := rfl
    rw [hticked]
    exact ⟨rfl, by decide, rfl, rfl⟩
  have hempty : QuotaRun [] twoKeys := .start _ _ _
  have hticked := hempty.act (a := .tick second) rfl trivial (runs_storeAfter htick)
  exact hticked.act (a := join nodeA keyA (some 1)) rfl hunused (runs_storeAfter hjoin)

theorem quotaRun_by {limits : QuotaLimits} {caller : ApiKey} (h : answersBy limits caller) :
    ∃ tr₁ tr₂, QuotaRun (tr₁ ++ startEntry limits caller :: (tr₂ ++ [resultEntry limits caller]))
      (endedBy limits caller) := by
  obtain ⟨hstart, hclaim, hresult⟩ := h
  obtain ⟨claimed, hclaimed⟩ := Option.isSome_iff_exists.mp hclaim
  have hstarted := quotaRun_started joinedRun (by decide) (runs_storeAfter hstart)
  have hclaimed := hstarted.act (a := .claim authA claim1 download1) rfl trivial
    (runs_storeAfter hclaimed)
  have hended := hclaimed.act (a := .result authA task1 (some claim1) receipt1) rfl trivial
    (runs_storeAfter hresult)
  refine ⟨joinedEntries, [⟨startedBy limits caller, .act (.claim authA claim1 download1) claimed,
    claimedBy limits caller⟩], ?_⟩
  rw [List.append_assoc, List.append_assoc] at hended
  exact hended

end Sample

open Sample in
/-- The user starts the job with the key of the deployment. -/
theorem charged_was_under_quota_own :
    ((claimedBy (fun _ ↦ none) keyOne).task task1).map (·.jobId) = some job ∧
    ∃ apiKey,
      (twoKeys.deployment pid).bind (·.apiKey) = some apiKey ∧
      (∃ amount, (endedBy (fun _ ↦ none) keyOne).instructionsUsed =
        Function.update (claimedBy (fun _ ↦ none) keyOne).instructionsUsed apiKey
          (some (((claimedBy (fun _ ↦ none) keyOne).instructionsUsed apiKey).getD 0 + amount))) ∧
      (nodeJoined.checkQuota (fun _ ↦ none) apiKey).1 = true := by
  have hanswers : answersBy (fun _ ↦ none) keyOne := by decide +kernel
  obtain ⟨tr₁, tr₂, hrun⟩ := quotaRun_by hanswers
  have htask : ((claimedBy (fun _ ↦ none) keyOne).task task1).map
      (fun task ↦ (task.jobId, task.pid)) = some (job, pid) := by
    decide +kernel
  have hstays : (claimedBy (fun _ ↦ none) keyOne).deployment pid ≠ none := by decide +kernel
  obtain ⟨task, htask, hboth⟩ := Option.map_eq_some_iff.mp htask
  obtain ⟨hjob, hpid⟩ := Prod.mk.inj hboth
  have hown : (startEntry (fun _ ↦ none) keyOne).OwnKey := by
    intro limits r draws reply pid' apiKey hevent hpid' hkey
    cases hevent
    cases hpid'
    cases hkey
    rfl
  obtain ⟨apiKey, hkey, hcharged, hunder, -⟩ := charged_was_under_quota hrun rfl (by decide)
    rfl rfl htask hjob
  rw [hpid] at hkey hcharged
  refine ⟨by rw [htask]; exact congrArg some hjob, apiKey, hkey, ?_, hunder hown⟩
  exact hcharged.resolve_left fun hgone ↦ hstays hgone.1

open Sample in
/-- The counter of the first key is over its limit, and the second key starts a job whose result is
charged to it. -/
theorem second_key_charges_first : answersBy spent keyTwo ∧
    (∃ tr₁ tr₂, QuotaRun (tr₁ ++ startEntry spent keyTwo :: (tr₂ ++ [resultEntry spent keyTwo]))
      (endedBy spent keyTwo)) ∧
    startReply.job = some job ∧ (nodeJoined.checkQuota spent keyOne).1 = false ∧
    ((claimedBy spent keyTwo).task task1).map (·.jobId) = some job ∧
    ((claimedBy spent keyTwo).instructionsUsed keyOne).getD 0 = 0 ∧
    (endedBy spent keyTwo).instructionsUsed keyOne = some 7 := by
  have hrun : answersBy spent keyTwo ∧
      startReply.job = some job ∧ (nodeJoined.checkQuota spent keyOne).1 = false ∧
      ((claimedBy spent keyTwo).task task1).map (·.jobId) = some job ∧
      ((claimedBy spent keyTwo).instructionsUsed keyOne).getD 0 = 0 ∧
      (endedBy spent keyTwo).instructionsUsed keyOne = some 7 := by
    decide +kernel
  exact ⟨hrun.1, quotaRun_by hrun.1, hrun.2⟩

end TandemAio
