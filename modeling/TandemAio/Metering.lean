import TandemAio.Charges
import TandemAio.Crash

/-!
# What a key has used

Runs of requests in which a submission may fail halfway, and the ledger of their completed tasks.
-/

open Reasoning Reasoning.Prog

namespace TandemAio

/-- A submission with a receipt. -/
structure ReceiptPost where
  auth : NodeAuth
  tid : Tid
  claimToken : Option Token
  resultBytes : List UInt8
  receipt : Receipt

def ReceiptPost.action (sub : ReceiptPost) : Action :=
  .result sub.auth sub.tid sub.claimToken (.octetStream sub.resultBytes (.object sub.receipt))

/-- What fails of a submission. -/
inductive Fault
  /-- The call after the first `calls` ones. -/
  | call (calls : Nat)
  /-- The write of the result file, after a part of it. -/
  | write (part : List UInt8)

/-- A request with its answer, a submission that fails, or a change of the tables. -/
inductive MeterEvent
  | act (a : Action) (response : Response)
  | fails (sub : ReceiptPost) (fault : Fault)
  /-- Keys come and go, and deployments are made and removed. -/
  | tables (userApi : ApiKey → Option Nat) (deployment : Pid → Option Deployment)

namespace MeterEvent

def submission : MeterEvent → Option (ReceiptPost × Option Fault)
  | .act (.result auth tid claimToken (.octetStream resultBytes (.object receipt))) _ =>
    some (⟨auth, tid, claimToken, resultBytes, receipt⟩, none)
  | .fails sub fault => some (sub, some fault)
  | _ => none

/-- The task that an event creates. -/
def createdTid : MeterEvent → Option Tid
  | .act (.createTask a) _ => some a.tid
  | _ => none

/-- The event makes a deployment under the pid. -/
def Makes (s : Store) (pid : Pid) : MeterEvent → Prop
  | .tables _ deployment => s.deployment pid = none ∧ deployment pid ≠ none
  | _ => False

end MeterEvent

/-- The node and the task of a submission whose receipt verifies. -/
structure ReceiptPost.Verified [Sha256] (sub : ReceiptPost) (s : Store) (nodeId : NodeId)
    (task : Task) : Prop where
  may : MaySubmit s sub.auth sub.tid sub.claimToken nodeId task
  receipt : receiptVerdict (s.nodePublicKey nodeId) sub.receipt sub.resultBytes nodeId = .verified

inductive MeterStep [Sha256] (s : Store) : MeterEvent → Store → Prop
  /-- A task is created for a deployment that exists. -/
  | act {a response s'} : a.NewTo s → (∀ b, a = .createTask b → s.deployment b.pid ≠ none) →
      Runs (handle a) s response s' → MeterStep s (.act a response) s'
  | call {sub calls} :
      MeterStep s (.fails sub (.call calls)) (execVisit calls (handle sub.action) s)
  | write {sub nodeId task part s₁} : sub.Verified s nodeId task →
      s.chargeFor task.pid sub.receipt = some s₁ → MeterStep s (.fails sub (.write part))
        (s₁.putFile (.result task.jobId sub.tid) (.bytes part))
  /-- No row of a deployment is ever changed. -/
  | tables {userApi deployment} :
      (∀ pid d d', s.deployment pid = some d → deployment pid = some d' → d' = d) →
      MeterStep s (.tables userApi deployment) { s with userApi, deployment }

/-- One step of a run, with the states around it. -/
structure MeterEntry where
  before : Store
  event : MeterEvent
  after : Store

/-- A run. No task id is drawn twice, and no pid, and receipts carry integers. -/
inductive MeterRun [Sha256] : List MeterEntry → Store → Prop
  | start (deployment userApi nodeRegistrationToken) :
      MeterRun [] (Store.initial deployment userApi nodeRegistrationToken)
  | step {tr s e s'} : MeterRun tr s →
      (∀ tid, e.createdTid = some tid → ∀ x ∈ tr, x.event.createdTid ≠ some tid) →
      (∀ pid, e.Makes s pid → ∀ x ∈ tr, x.before.deployment pid = none) →
      (∀ sub fault, e.submission = some (sub, fault) → ∃ i, sub.receipt.countField = .int i) →
      MeterStep s e s' → MeterRun (tr ++ [⟨s, e, s'⟩]) s'

/-! ## The ledger -/

/-- The `instruction_count` of a receipt, if it is an integer. -/
def Receipt.count (receipt : Receipt) : Int :=
  match receipt.countField with
  | .int i => i
  | _ => 0

/-- A task that has been completed, and the count of the receipt it was completed with. -/
structure Completion where
  tid : Tid
  pid : Pid
  count : Int

/-- The task that a step completes. -/
def MeterEntry.completion (e : MeterEntry) : Option Completion := do
  let (sub, _) ← e.event.submission
  let task ← e.before.task sub.tid
  if task.status ≠ .completed ∧
      (e.after.task sub.tid).map (·.status) = some .completed then
    some ⟨sub.tid, task.pid, sub.receipt.count⟩
  else none

def ledger (tr : List MeterEntry) : List Completion := tr.filterMap (·.completion)

/-- The key that a deployment carries. -/
def Store.keyOf (s : Store) (pid : Pid) : Option ApiKey := (s.deployment pid).bind (·.apiKey)

/-- The sum of the counts of the completed tasks of a key. -/
def owed (s : Store) (apiKey : ApiKey) (completions : List Completion) : Int :=
  ((completions.filter fun c ↦ s.keyOf c.pid = some apiKey).map (·.count)).sum

/-- `instructions_used` -/
def Store.used (s : Store) (apiKey : ApiKey) : Int := (s.instructionsUsed apiKey).getD 0

/-- Every key has used what its completed tasks have counted. -/
def Balanced (tr : List MeterEntry) (s : Store) : Prop :=
  ∀ apiKey, s.used apiKey = owed s apiKey (ledger tr)

/-! ## The condition -/

/-- With a key, the `INCRBY` is the sixth command of a submission and the `HSET` of the status the
tenth. -/
def chargeCall : Nat := 6

def completeCall : Nat := 10

/-- The submission gets to its `INCRBY`. -/
def Charging : Option Fault → Prop
  | some (.call calls) => chargeCall ≤ calls
  | some (.write _) | none => True

/-- The submission gets to its `INCRBY` and not to its `HSET`. -/
def Between : Option Fault → Prop
  | some (.call calls) => chargeCall ≤ calls ∧ calls < completeCall
  | some (.write _) => True
  | none => False

/-- When a submission charges a key, the count is not negative, and no call fails between the charge
and the completion, unless the count is zero. -/
def MeterEntry.ChargesExactly [Sha256] (e : MeterEntry) : Prop :=
  ∀ sub fault nodeId task apiKey, e.event.submission = some (sub, fault) →
    sub.Verified e.before nodeId task → e.before.keyOf task.pid = some apiKey →
      usageAmount (e.before.instructionsUsed apiKey) sub.receipt.countField ≠ none →
        Charging fault → 0 ≤ sub.receipt.count ∧ (Between fault → sub.receipt.count = 0)

/-- No deployment with a key is removed that has a completed task with a count other than zero. -/
def MeterEntry.Spares (tr : List MeterEntry) (e : MeterEntry) : Prop :=
  ∀ c ∈ ledger tr, e.before.keyOf c.pid ≠ none → e.after.deployment c.pid = none → c.count = 0

/-- A step after the run `tr`. -/
def MeterEntry.Exact [Sha256] (tr : List MeterEntry) (e : MeterEntry) : Prop :=
  e.ChargesExactly ∧ e.Spares tr

/-! ## Steps that complete no task -/

/-- No counter changes, no task is new or newly completed, and a completed one stays as it is, but
for its expiry. -/
structure Quiet (s s' : Store) : Prop where
  used : s'.instructionsUsed = s.instructionsUsed
  deployment : s'.deployment = s.deployment
  tame : Tame s'
  origin : SameOrigin s s'
  completed : ∀ t task', s'.task t = some task' → task'.status = .completed →
    s.task t = some task'
  kept : ∀ t task, s.task t = some task → task.status = .completed →
    s'.task t = some task ∨ s'.task t = none

/-- The labels that neither complete nor charge nor create. -/
def Label.quiet : Label → Prop
  | .charge _ _ | .complete _ _ _ | .createTask _ => False
  | _ => True

section Quiet

variable {s s₁ s' : Store} {l : Label}

theorem Quiet.refl (h : Tame s) : Quiet s s where
  used := rfl
  deployment := rfl
  tame := h
  origin := .refl s
  completed _ _ ht _ := ht
  kept _ _ ht _ := .inl ht

theorem Quiet.trans (h : Quiet s s₁) (h' : Quiet s₁ s') : Quiet s s' where
  used := h'.used.trans h.used
  deployment := h'.deployment.trans h.deployment
  tame := h'.tame
  origin := h.origin.trans h'.origin
  completed t task' ht hc := h.completed t task' (h'.completed t task' ht hc) hc
  kept t task ht hc := by
    rcases h.kept t task ht hc with hmid | hmid
    · exact h'.kept t task hmid hc
    · -- what is gone does not come back
      refine .inr (Option.eq_none_iff_forall_ne_some.mpr fun task' ht' ↦ ?_)
      obtain ⟨task₁, ht₁, -⟩ := h'.origin t task' ht'
      rw [hmid] at ht₁
      cases ht₁

theorem Move.used (hm : Move s l s') (hl : l.quiet) : s'.instructionsUsed = s.instructionsUsed := by
  cases hm with
  | charge => exact hl.elim
  | _ => rfl

theorem Move.quiet (hm : Move s l s') (hl : l.quiet) (h : Tame s) : Quiet s s' where
  used := hm.used hl
  deployment := hm.deployment
  tame := h.move hm
  origin := by
    refine hm.sameOrigin ?_
    cases l with
    | createTask => exact hl.elim
    | _ => rfl
  completed t task' ht hc := by
    rcases hm.task_cases ht with ⟨hs, -⟩ | ⟨a, rfl, -⟩ | ⟨task, hs, he⟩
    · exact hs
    · exact hl.elim
    · cases he with
      | lease =>
        cases hm with
        | lease hs' hlive =>
          obtain rfl := Option.some.inj (hs.symm.trans hs')
          have hstatus : task.status = .completed := hc
          rw [hstatus] at hlive
          cases hlive
      | complete => exact hl.elim
      | requeue | claim | start | fail => cases hc
  kept t task ht hc := h.finished_final hm ht (by rw [hc]; rfl)

theorem Via.quiet {P : Label → Prop} (h : Via P s s') (hP : ∀ l, P l → l.quiet) (ht : Tame s) :
    Quiet s s' :=
  h.invariant (I := Quiet s) (fun _ l _ hl hm hs ↦ hs.trans (hm.quiet (hP l hl) hs.tame)) (.refl ht)

/-- The states agree on what the ledger is about. -/
structure SameTasks (s s' : Store) : Prop where
  task : s'.task = s.task
  queue : s'.queue = s.queue
  used : s'.instructionsUsed = s.instructionsUsed
  deployment : s'.deployment = s.deployment

theorem SameTasks.trans (h : SameTasks s s₁) (h' : SameTasks s₁ s') : SameTasks s s' :=
  ⟨h'.task.trans h.task, h'.queue.trans h.queue, h'.used.trans h.used,
    h'.deployment.trans h.deployment⟩

theorem Tame.congr (h : Tame s) (htask : s'.task = s.task) (hqueue : s'.queue = s.queue) :
    Tame s' := by
  intro t task ht
  rw [htask] at ht
  refine (h t task ht).frame fun key ↦ ?_
  rw [Store.waits, Store.waits, hqueue]

theorem SameTasks.quiet (h : SameTasks s s') (ht : Tame s) : Quiet s s' where
  used := h.used
  deployment := h.deployment
  tame := ht.congr h.task h.queue
  origin _ task' hs := ⟨task', h.task ▸ hs, rfl, rfl⟩
  completed _ _ hs _ := h.task ▸ hs
  kept _ _ hs _ := .inl (h.task ▸ hs)

/-- The hash of a live task says that it waits. -/
theorem quiet_requeueHash {tid : Tid} {task : Task} (h : Tame s) (ht : s.task tid = some task)
    (hl : task.status.live = true) (destination : Option NodeId) :
    Quiet s (s.modifyTask tid (·.requeue destination s.clock)) where
  used := rfl
  deployment := rfl
  tame t task' ht' := by
    rw [Store.modifyTask_task] at ht'
    by_cases he : t = tid
    · subst he
      rw [Function.update_self, ht, Option.map_some, Option.some.injEq] at ht'
      subst ht'
      exact .of_waits (fun _ ↦ ⟨rfl, rfl⟩) ((h t task ht).waits_live hl)
    · rw [Function.update_of_ne he] at ht'
      exact (h t task' ht').frame fun _ ↦ rfl
  origin t task' ht' := by
    rw [Store.modifyTask_task] at ht'
    by_cases he : t = tid
    · subst he
      rw [Function.update_self, ht, Option.map_some, Option.some.injEq] at ht'
      subst ht'
      exact ⟨task, ht, rfl, rfl⟩
    · rw [Function.update_of_ne he] at ht'
      exact ⟨task', ht', rfl, rfl⟩
  completed t task' ht' hc := by
    rw [Store.modifyTask_task] at ht'
    by_cases he : t = tid
    · subst he
      rw [Function.update_self, ht, Option.map_some, Option.some.injEq] at ht'
      subst ht'
      cases hc
    · rwa [Function.update_of_ne he] at ht'
  kept t task' ht' hc := by
    left
    have he : t ≠ tid := by
      rintro rfl
      obtain rfl := Option.some.inj (ht.symm.trans ht')
      rw [hc] at hl
      cases hl
    rw [Store.modifyTask_task, Function.update_of_ne he]
    exact ht'

end Quiet

/-! ## Submissions, command by command -/

/-- What a submission leaves that ends or fails. -/
inductive Receipted [Sha256] (s : Store) (sub : ReceiptPost) (fault : Option Fault) (s' : Store) :
    Prop
  | quiet : Quiet s s' → (∀ nodeId task apiKey, sub.Verified s nodeId task →
      s.keyOf task.pid = some apiKey →
      usageAmount (s.instructionsUsed apiKey) sub.receipt.countField ≠ none → ¬ Charging fault) →
      Receipted s sub fault s'
  | lost {nodeId task apiKey amount} : sub.Verified s nodeId task →
      s.keyOf task.pid = some apiKey →
      usageAmount (s.instructionsUsed apiKey) sub.receipt.countField = some amount →
      Charging fault → Between fault → SameTasks (s.charge apiKey amount) s' →
      Receipted s sub fault s'
  | free {nodeId task} : sub.Verified s nodeId task → s.keyOf task.pid = none →
      SameTasks (s.complete sub.tid nodeId task sub.resultBytes) s' → Receipted s sub fault s'
  | charged {nodeId task apiKey amount} : sub.Verified s nodeId task →
      s.keyOf task.pid = some apiKey →
      usageAmount (s.instructionsUsed apiKey) sub.receipt.countField = some amount →
      Charging fault → ¬ Between fault →
      SameTasks ((s.charge apiKey amount).complete sub.tid nodeId task sub.resultBytes) s' →
      Receipted s sub fault s'

section Submissions

variable {α : Type} {s s' : Store} {tid : Tid} {nodeId : NodeId} {task : Task}

theorem reads_read {ρ : Type} {m : Nat} {f : Store → ρ} {seen : ρ → List Tid}
    {k : ρ → Server α} {q : Server α} (h : Reads s m (k (f s)) q) :
    Reads s (m + 1) (Server.read f seen >>= k) q := .cmd rfl h

theorem reads_requireNodeAuth {auth : NodeAuth} {node : Node}
    (ha : s.authenticate auth = .ok (nodeId, node)) :
    Reads s 1 (requireNodeAuth auth) (.ret (.ok (nodeId, node))) := by
  obtain ⟨hid, hn, htoken⟩ := Store.authenticate_ok ha
  rw [requireNodeAuth, hid, htoken]
  apply reads_read
  rw [hn]
  have hcompare : compareToken (some node.nodeToken) (some node.nodeToken) = true := by
    rw [compareToken, beq_self_eq_true]
  simp only [hcompare, if_true]
  exact .refl _

/-- A submission whose receipt verifies goes on with `acceptResult`. -/
theorem ReceiptPost.Verified.reads [Sha256] {sub : ReceiptPost} (h : sub.Verified s nodeId task) :
    Reads s 3 (handle sub.action)
      (acceptResult sub.tid nodeId task sub.resultBytes sub.receipt) := by
  obtain ⟨node, ha⟩ := h.may.auth
  obtain ⟨token, hc, hc'⟩ := h.may.token
  have hcompare : compareToken task.claimToken sub.claimToken = true := by
    rw [hc, hc', compareToken, beq_self_eq_true]
  refine ((reads_requireNodeAuth ha).bind _).trans (n := 2) ?_
  apply reads_read
  simp only [h.may.stored, h.may.assigned, hcompare, ne_eq, not_true_eq_false, if_false,
    Bool.true_eq_false, submitBody]
  apply reads_read
  rw [h.receipt]
  exact .refl _

theorem SameTasks.refl (s : Store) : SameTasks s s := ⟨rfl, rfl, rfl, rfl⟩

theorem always_refreshJobStatus (jobId : JobId) :
    always (refreshJobStatus jobId) (SameTasks s) s := by
  rw [refreshJobStatus, Server.always_read_bind]
  have hread : ∀ tid : Tid, always (do
        let task ← Server.getTask tid
        return task.map fun task ↦ (tid, task)) (· = s) s ∧
      wp (do
        let task ← Server.getTask tid
        return task.map fun task ↦ (tid, task)) (fun _ s' ↦ s' = s) s := by
    intro tid
    rw [Server.always_read_bind, wp_bind, Server.wp_read]
    exact ⟨(always_pure _ _ s).mpr rfl, (wp_pure _ _ s).mpr rfl⟩
  obtain ⟨hcollect, hpost⟩ := always_collect hread (s.jobTasks jobId)
  refine always_bind (hcollect.mono fun s' h ↦ h ▸ .refl s) (hpost.mono fun tasks s' h ↦ ?_)
  rw [h, Server.always_read_bind, Server.always_write_bind, always_pure]
  exact ⟨.refl s, rfl, rfl, rfl, rfl⟩

theorem execVisit_getTask (n : Nat) (tid : Tid) (f : Option Task → Server α) (g : α → Server β)
    (s : Store) :
    execVisit (n + 1) (Server.getTask tid >>= f >>= g) s =
      execVisit n (f (s.task tid) >>= g) s := rfl

/-- A completion that stops anywhere. -/
theorem execVisit_completeTask (f : Option JobSummary → α) (nodeId : NodeId)
    (ht : s.task tid = some task)
    (resultBytes : List UInt8) (n : Nat) :
    (n < 4 ∧ SameTasks s
      (execVisit n (completeTask tid nodeId resultBytes >>= fun o ↦ pure (f o)) s)) ∨
    4 ≤ n ∧ SameTasks (s.complete tid nodeId task resultBytes)
      (execVisit n (completeTask tid nodeId resultBytes >>= fun o ↦ pure (f o)) s) := by
  have hget : ∀ n, execVisit (n + 1)
      (completeTask tid nodeId resultBytes >>= fun o ↦ pure (f o)) s =
      execVisit n ((do
        Server.write (·.putFile (.result task.jobId tid) (.bytes resultBytes)) []
        let timestamp ← Server.time
        Server.hsetTask tid (·.complete (.result task.jobId tid) timestamp)
        Server.hsetNode nodeId (·.endTask timestamp)
        Server.write (·.dropFile task.blobPath) []
        let summary ← refreshJobStatus task.jobId
        return some summary) >>= fun o ↦ pure (f o)) s := by
    intro n
    rw [completeTask, execVisit_getTask, ht]
  rcases n with _ | _ | _ | _ | n
  · exact .inl ⟨by omega, .refl s⟩
  · exact .inl ⟨by omega, .refl s⟩
  · exact .inl ⟨by omega, by rw [hget]; exact ⟨rfl, rfl, rfl, rfl⟩⟩
  · exact .inl ⟨by omega, by rw [hget]; exact ⟨rfl, rfl, rfl, rfl⟩⟩
  · refine .inr ⟨by omega, ?_⟩
    rw [hget]
    -- the task is completed, and what is left concerns its node, its file and its job
    generalize hs₁ : (s.putFile (.result task.jobId tid) (.bytes resultBytes)).modifyTask tid
      (·.complete (.result task.jobId tid) s.clock) = s₁
    have hsame : SameTasks (s.complete tid nodeId task resultBytes) s₁ := by
      subst hs₁
      exact ⟨rfl, rfl, rfl, rfl⟩
    have hrest : always ((do
        Server.hsetNode nodeId (·.endTask s.clock)
        Server.write (·.dropFile task.blobPath) []
        let summary ← refreshJobStatus task.jobId
        return some summary) >>= fun o ↦ (pure (f o) : Server α)) (SameTasks s₁) s₁ := by
      refine always_bind ?_ ?_
      · simp only [Server.always_write_bind]
        refine ⟨.refl s₁, ⟨rfl, rfl, rfl, rfl⟩, always_bind ?_ ?_⟩
        · have hnode : SameTasks s₁
              ((s₁.modifyNode nodeId (·.endTask s.clock)).dropFile task.blobPath) :=
            ⟨rfl, rfl, rfl, rfl⟩
          exact (always_refreshJobStatus _).mono fun s₂ h ↦ hnode.trans h
        · rw [wp_refreshJobStatus, always_pure]
          exact ⟨rfl, rfl, rfl, rfl⟩
      · simp only [wp_bind, Server.wp_write, wp_refreshJobStatus, wp_pure, always_pure]
        exact ⟨rfl, rfl, rfl, rfl⟩
    have hvisit := hrest _ (visits_execVisit n _ _)
    subst hs₁
    exact hsame.trans hvisit

/-- `record_usage` and the query before it. -/
theorem reads_chargeUsage (pid : Pid) (receipt : Receipt) :
    match s.keyOf pid with
    | none => Reads s 1 (chargeUsage pid receipt) (.ret true)
    | some apiKey => match usageAmount (s.instructionsUsed apiKey) receipt.countField with
      | none => Reads s 2 (chargeUsage pid receipt) (.ret false)
      | some amount => Reads s 2 (chargeUsage pid receipt)
          (Server.write (·.charge apiKey amount) [] >>= fun _ ↦ pure true) := by
  unfold Store.keyOf chargeUsage
  cases hd : s.deployment pid with
  | none =>
    apply reads_read
    rw [hd]
    exact .refl _
  | some deployment =>
    cases hkey : deployment.apiKey with
    | none =>
      simp only [Option.bind_some, hkey]
      apply reads_read
      simp only [hd, hkey]
      exact .refl _
    | some apiKey =>
      simp only [Option.bind_some, hkey]
      cases hamount : usageAmount (s.instructionsUsed apiKey) receipt.countField with
      | none =>
        apply reads_read
        simp only [hd, hkey, recordUsage]
        apply reads_read
        rw [hamount]
        exact .refl _
      | some amount =>
        apply reads_read
        simp only [hd, hkey, recordUsage]
        apply reads_read
        rw [hamount]
        exact .refl _

theorem Store.chargeFor_keyOf (s : Store) (pid : Pid) (receipt : Receipt) :
    s.chargeFor pid receipt = match s.keyOf pid with
      | none => some s
      | some apiKey =>
        (usageAmount (s.instructionsUsed apiKey) receipt.countField).map (s.charge apiKey) := rfl

namespace ReceiptPost.Verified

variable [Sha256] {sub : ReceiptPost}

/-- The node and the task of a submission are the only ones. -/
theorem unique {nodeId' : NodeId} {task' : Task} (h : sub.Verified s nodeId task)
    (h' : sub.Verified s nodeId' task') : nodeId' = nodeId ∧ task' = task := by
  have hnode := h.may.auth.nodeId.symm.trans h'.may.auth.nodeId
  exact ⟨(Option.some.inj hnode).symm,
    (Option.some.inj (h.may.stored.symm.trans h'.may.stored)).symm⟩

/-- A submission that verifies and is not charged. -/
theorem quiet_of_unchargeable (h : sub.Verified s nodeId task) {fault : Option Fault}
    {apiKey : ApiKey} (hkey : s.keyOf task.pid = some apiKey)
    (hno : usageAmount (s.instructionsUsed apiKey) sub.receipt.countField ≠ none →
      ¬ Charging fault) (hquiet : Quiet s s') : Receipted s sub fault s' := by
  refine .quiet hquiet fun nodeId' task' apiKey' h' hkey' hsome ↦ ?_
  obtain ⟨rfl, rfl⟩ := h.unique h'
  rw [hkey, Option.some.injEq] at hkey'
  subst hkey'
  exact hno hsome

/-- A submission that verifies, and ends. -/
theorem ended (h : sub.Verified s nodeId task) (ht : Tame s) {r : Response}
    (hruns : Runs (handle sub.action) s r s') : Receipted s sub none s' := by
  have hruns' : wp (acceptResult sub.tid nodeId task sub.resultBytes sub.receipt)
      (fun _ s₁ ↦ s₁ = s') s := (h.reads.wp_iff _).mp ⟨r, s', hruns, rfl⟩
  rw [acceptResult, wp_bind, wp_chargeUsage, Store.chargeFor_keyOf] at hruns'
  cases hkey : s.keyOf task.pid with
  | none =>
    simp only [hkey, if_true, wp_bind, wp_completeTask, h.may.stored, wp_pure] at hruns'
    refine .free h hkey ?_
    rw [← hruns']
    exact ⟨rfl, rfl, rfl, rfl⟩
  | some apiKey =>
    cases hamount : usageAmount (s.instructionsUsed apiKey) sub.receipt.countField with
    | none =>
      simp only [hkey, hamount, Option.map_none, Bool.false_eq_true, if_false, wp_pure] at hruns'
      refine h.quiet_of_unchargeable hkey (fun hsome ↦ absurd hamount hsome) ?_
      rw [← hruns']
      exact .refl ht
    | some amount =>
      have hstored : (s.charge apiKey amount).task sub.tid = some task := h.may.stored
      simp only [hkey, hamount, Option.map_some, if_true, wp_bind, wp_completeTask, hstored,
        wp_pure] at hruns'
      refine .charged h hkey hamount trivial id ?_
      rw [← hruns']
      exact ⟨rfl, rfl, rfl, rfl⟩

/-- A submission that verifies, and stops. -/
theorem stopped (h : sub.Verified s nodeId task) (ht : Tame s) (calls : Nat) :
    Receipted s sub (some (.call calls)) (execVisit calls (handle sub.action) s) := by
  have hcharge := reads_chargeUsage (s := s) task.pid sub.receipt
  cases hkey : s.keyOf task.pid with
  | none =>
    simp only [hkey] at hcharge
    have hreads : Reads s 4 (handle sub.action) (completeTask sub.tid nodeId sub.resultBytes >>=
        fun o ↦ pure (resultResponse .completed o)) := h.reads.trans (hcharge.bind _)
    have hunkeyed : Quiet s (execVisit calls (handle sub.action) s) →
        Receipted s sub (some (.call calls)) (execVisit calls (handle sub.action) s) := by
      refine fun hquiet ↦ .quiet hquiet fun nodeId' task' apiKey' h' hkey' _ ↦ ?_
      obtain ⟨rfl, rfl⟩ := h.unique h'
      rw [hkey] at hkey'
      cases hkey'
    by_cases hn : calls ≤ 4
    · apply hunkeyed
      rw [hreads.execVisit_of_le hn]
      exact .refl ht
    · have hsum : calls - 4 + 4 = calls := by omega
      have hvisit := hreads.execVisit_add (calls - 4)
      rw [hsum] at hvisit
      rw [hvisit] at hunkeyed ⊢
      rcases execVisit_completeTask _ nodeId h.may.stored sub.resultBytes (calls - 4)
        with ⟨-, hsame⟩ | ⟨-, hsame⟩
      · exact hunkeyed (hsame.quiet ht)
      · exact .free h hkey hsame
  | some apiKey =>
    cases hamount : usageAmount (s.instructionsUsed apiKey) sub.receipt.countField with
    | none =>
      simp only [hkey, hamount] at hcharge
      have hreads : Reads s 5 (handle sub.action) (.ret .serverError) :=
        h.reads.trans (hcharge.bind _)
      have hend : execVisit calls (handle sub.action) s = s := by
        by_cases hn : calls ≤ 5
        · exact hreads.execVisit_of_le hn
        · have hsum : calls - 5 + 5 = calls := by omega
          rw [← hsum, hreads.execVisit_add]
          cases calls - 5 <;> rfl
      rw [hend]
      exact h.quiet_of_unchargeable hkey (fun hsome ↦ absurd hamount hsome) (.refl ht)
    | some amount =>
      simp only [hkey, hamount] at hcharge
      have hreads : Reads s 5 (handle sub.action) (Server.write (·.charge apiKey amount) [] >>=
          fun _ ↦ completeTask sub.tid nodeId sub.resultBytes >>=
            fun o ↦ pure (resultResponse .completed o)) := h.reads.trans (hcharge.bind _)
      by_cases hn : calls ≤ 5
      · rw [hreads.execVisit_of_le hn]
        refine h.quiet_of_unchargeable hkey (fun _ hcharging ↦ ?_) (.refl ht)
        have hcall : 6 ≤ calls := hcharging
        omega
      · have hsum : calls - 6 + 1 + 5 = calls := by omega
        have hvisit := hreads.execVisit_add (calls - 6 + 1)
        rw [hsum] at hvisit
        have hcharging : Charging (some (.call calls)) := by
          show 6 ≤ calls
          omega
        have hstored : (s.charge apiKey amount).task sub.tid = some task := h.may.stored
        rw [hvisit]
        rcases execVisit_completeTask (resultResponse .completed) nodeId hstored
          sub.resultBytes (calls - 6)
          with ⟨hlt, hsame⟩ | ⟨hle, hsame⟩
        · have hbetween : Between (some (.call calls)) := by
            refine ⟨hcharging, ?_⟩
            show calls < 10
            omega
          exact .lost h hkey hamount hcharging hbetween hsame
        · have hbetween : ¬ Between (some (.call calls)) := by
            intro hlt
            have hcall : calls < 10 := hlt.2
            omega
          exact .charged h hkey hamount hcharging hbetween hsame

end ReceiptPost.Verified

/-- A bad receipt, stopped anywhere. -/
theorem always_rejectReceipt {node : Node} {token : Token} (ht : Tame s)
    (hn : s.node nodeId = some node) (hs : s.task tid = some task)
    (ha : task.assignedNode = some nodeId) (hc : task.claimToken = some token) (reason : String) :
    always (rejectReceipt tid nodeId reason) (Quiet s) s := by
  have hl : task.status.live = true :=
    (ht tid task hs).live_of_claimToken (by rw [hc]; exact Option.some_ne_none token)
  have hreject : Quiet s (s.reject nodeId tid task.runtime) :=
    (Move.reject hn hs ha hc).quiet trivial ht
  -- the count goes up, the node may go, and the task goes back to its queue
  have hrequeue : ∀ s₁ : Store, SameTasks s s₁ → s₁.clock = s.clock →
      Quiet s (s₁.requeue tid none task.runtime) →
      always (requeueTask tid none >>= fun _ ↦
        (pure (.error 403 ("Receipt verification failed: " ++ reason)) : Server Response))
        (Quiet s) s₁ := by
    intro s₁ hsame hclock hlast
    have hs₁ : s₁.task tid = some task := by
      rw [hsame.task]
      exact hs
    have hquiet : Quiet s s₁ := hsame.quiet ht
    refine always_requeueTask_bind hs₁ hquiet ?_ ((always_pure _ _ _).mpr hlast)
    exact hquiet.trans (quiet_requeueHash hquiet.tame hs₁ hl none)
  have hbump : SameTasks s (s.bumpBadReceipts nodeId) := ⟨rfl, rfl, rfl, rfl⟩
  have hcmd : always (rejectReceipt tid nodeId reason) (Quiet s) s ↔ Quiet s s ∧
      always (if badReceiptThreshold ≤ s.badReceipts nodeId + 1 then do
          Server.sremNodes nodeId
          requeueTask tid none
          return .error 403 ("Receipt verification failed: " ++ reason)
        else do
          requeueTask tid none
          return .error 403 ("Receipt verification failed: " ++ reason) : Server Response)
        (Quiet s) (s.bumpBadReceipts nodeId) := always_cmd _ _ _ _
  refine hcmd.mpr ⟨.refl ht, ?_⟩
  by_cases hbad : badReceiptThreshold ≤ s.badReceipts nodeId + 1
  · rw [if_pos hbad, Server.always_write_bind]
    refine ⟨hbump.quiet ht, hrequeue _ ⟨rfl, rfl, rfl, rfl⟩ rfl ?_⟩
    have hstate : ((s.bumpBadReceipts nodeId).removeMember nodeId).requeue tid none task.runtime =
        s.reject nodeId tid task.runtime := by
      simp only [Store.reject, Store.strike, hbad, if_true]
      rfl
    rw [hstate]
    exact hreject
  · rw [if_neg hbad]
    refine hrequeue _ hbump rfl ?_
    have hstate : (s.bumpBadReceipts nodeId).requeue tid none task.runtime =
        s.reject nodeId tid task.runtime := by
      simp only [Store.reject, Store.strike, hbad, if_false]
      rfl
    rw [hstate]
    exact hreject

/-- A submission whose receipt does not verify, stopped anywhere. -/
theorem always_unverified [Sha256] {sub : ReceiptPost} (ht : Tame s)
    (hno : ∀ nodeId task, ¬ sub.Verified s nodeId task) :
    always (handle sub.action) (Quiet s) s := by
  have hsame : Quiet s s := .refl ht
  show always (submitTaskResult _ _ _ _) _ _
  rw [submitTaskResult]
  refine always_bind ((always_requireNodeAuth _).mono fun s' h ↦ h ▸ hsame)
    ((wp_requireNodeAuth s _ _).mpr ?_)
  cases ha : s.authenticate sub.auth with
  | error r => exact (always_pure r _ s).mpr hsame
  | ok p =>
    obtain ⟨nodeId, node⟩ := p
    obtain ⟨-, hn, -⟩ := Store.authenticate_ok ha
    simp only [Server.always_read_bind]
    cases hs : s.task sub.tid with
    | none => exact (always_pure _ _ s).mpr hsame
    | some task =>
      by_cases hassigned : task.assignedNode = some nodeId
      · by_cases hcompare : compareToken task.claimToken sub.claimToken = true
        · simp only [hassigned, hcompare, ne_eq, not_true_eq_false, if_false, Bool.true_eq_false,
            submitBody, Server.always_read_bind]
          have hmay : MaySubmit s sub.auth sub.tid sub.claimToken nodeId task :=
            ⟨⟨node, ha⟩, hs, hassigned, compareToken_true hcompare⟩
          obtain ⟨token, hc, -⟩ := hmay.token
          cases hv : receiptVerdict (s.nodePublicKey nodeId) sub.receipt sub.resultBytes nodeId with
          | verified => exact absurd ⟨hmay, hv⟩ (hno nodeId task)
          | rejected reason => exact always_rejectReceipt ht hn hs hassigned hc reason
          | raised => exact (always_pure _ _ s).mpr hsame
        · simp only [hassigned, hcompare, ne_eq, not_true_eq_false, if_false, if_true, always_pure]
          exact hsame
      · simp only [hassigned, ne_eq, not_false_eq_true, if_true, always_pure]
        exact hsame

theorem MeterEvent.act_submission {a : Action} {r : Response} {sub : ReceiptPost}
    {fault : Option Fault} (h : (MeterEvent.act a r).submission = some (sub, fault)) :
    a = sub.action ∧ fault = none := by
  unfold submission at h
  split at h
  · rename_i hact
    cases hact
    cases h
    exact ⟨rfl, rfl⟩
  · rename_i hfails
    cases hfails
  · cases h

/-- What every submission with a receipt leaves. -/
theorem MeterStep.receipted [Sha256] {e : MeterEvent} {sub : ReceiptPost} {fault : Option Fault}
    (h : MeterStep s e s') (ht : Tame s) (he : e.submission = some (sub, fault)) :
    Receipted s sub fault s' := by
  by_cases hverified : ∃ nodeId task, sub.Verified s nodeId task
  · obtain ⟨nodeId, task, hverified⟩ := hverified
    cases h with
    | @act a r _ hnew _ hruns =>
      obtain ⟨rfl, rfl⟩ := MeterEvent.act_submission he
      exact hverified.ended ht hruns
    | call =>
      cases he
      exact hverified.stopped ht _
    | @write _ nodeId' task' part s₁ hverified' hcharge =>
      cases he
      obtain ⟨rfl, rfl⟩ := hverified.unique hverified'
      rw [Store.chargeFor_keyOf] at hcharge
      cases hkey : s.keyOf task'.pid with
      | none =>
        simp only [hkey, Option.some.injEq] at hcharge
        subst hcharge
        have hsame : SameTasks s (s.putFile (.result task'.jobId sub.tid) (.bytes part)) :=
          ⟨rfl, rfl, rfl, rfl⟩
        refine .quiet (hsame.quiet ht) fun nodeId task apiKey h hkey' _ ↦ ?_
        obtain ⟨rfl, rfl⟩ := h.unique hverified
        rw [hkey] at hkey'
        cases hkey'
      | some apiKey =>
        simp only [hkey, Option.map_eq_some_iff] at hcharge
        obtain ⟨amount, hamount, rfl⟩ := hcharge
        exact .lost hverified hkey hamount trivial trivial ⟨rfl, rfl, rfl, rfl⟩
    | tables => cases he
  · have hno : ∀ nodeId task, ¬ sub.Verified s nodeId task := fun nodeId task hv ↦
      hverified ⟨nodeId, task, hv⟩
    refine .quiet ?_ fun nodeId task _ hv ↦ absurd hv (hno nodeId task)
    cases h with
    | act _ _ hruns =>
      obtain ⟨rfl, rfl⟩ := MeterEvent.act_submission he
      exact always_unverified ht hno _ hruns.visits
    | call =>
      cases he
      exact always_unverified ht hno _ (visits_execVisit _ _ _)
    | write hverified' =>
      cases he
      exact absurd hverified' (hno _ _)
    | tables => cases he

end Submissions

/-! ## Other requests -/

section Steps

variable [Sha256] {s s' : Store} {e : MeterEvent}

theorem Action.may.charge {a : Action} {r : Response} {apiKey : ApiKey} {amount : Int}
    (h : a.may s r (.charge apiKey amount)) :
    ∃ auth tid claimToken body, a = .result auth tid claimToken body := by
  cases a <;> simp_all [Action.may, Label.ofClaim, Label.stale, Label.drain]

/-- Only a creation, a completion and a charge are not quiet. -/
theorem Action.may_quiet {a : Action} {r : Response} {l : Label} (h : a.may s r l)
    (hcreate : ∀ b, a ≠ .createTask b)
    (hresult : ∀ auth tid claimToken body, a ≠ .result auth tid claimToken body) : l.quiet := by
  cases l with
  | createTask b => exact absurd h.createTask (hcreate b)
  | complete =>
    obtain ⟨_, _, _, ha, -⟩ := h.complete
    exact absurd ha (hresult _ _ _ _)
  | charge =>
    obtain ⟨_, _, _, _, ha⟩ := h.charge
    exact absurd ha (hresult _ _ _ _)
  | _ => trivial

/-- A request that carries no receipt and creates no task. -/
theorem quiet_of_runs {a : Action} {r : Response} (ht : Tame s) (hnew : a.NewTo s)
    (hruns : Runs (handle a) s r s') (hcreate : ∀ b, a ≠ .createTask b)
    (hno : (MeterEvent.act a r).submission = none) : Quiet s s' := by
  by_cases hresult : ∃ auth tid claimToken body, a = .result auth tid claimToken body
  · obtain ⟨auth, tid, claimToken, body, rfl⟩ := hresult
    have hsubmitted := (wp_submitTaskResult s auth tid claimToken body).elim hruns
    cases hsubmitted with
    | refused => exact .refl ht
    | rejected hmay =>
      obtain ⟨node, ha⟩ := hmay.auth
      obtain ⟨token, hc, -⟩ := hmay.token
      obtain ⟨-, hn, -⟩ := Store.authenticate_ok ha
      exact (Move.reject hn hmay.stored hmay.assigned hc).quiet trivial ht
    | completed => cases hno
    | @failed _ task error s₂ hmay hs₂ =>
      obtain ⟨node, ha⟩ := hmay.auth
      obtain ⟨token, hc, -⟩ := hmay.token
      obtain ⟨-, hn, -⟩ := Store.authenticate_ok ha
      have hfail := (Move.fail (failureMessage error) hn hmay.stored hmay.assigned hc).quiet
        trivial ht
      rw [hs₂]
      exact hfail.trans ((Move.refresh task.jobId).quiet trivial hfail.tame)
  · refine (Runs.via hnew hruns).quiet (fun l hl ↦ ?_) ht
    exact Action.may_quiet hl hcreate fun auth tid claimToken body ha ↦
      hresult ⟨auth, tid, claimToken, body, ha⟩

end Steps

/-! ## The invariant -/

/-- What holds of every run, exact or not. -/
structure Metered (tr : List MeterEntry) (s : Store) : Prop where
  tame : Tame s
  /-- A task is created for a deployment. -/
  known : ∀ t task, s.task t = some task →
    ∃ x ∈ tr, x.event.createdTid = some t ∧ x.before.deployment task.pid ≠ none
  completed : ∀ t task, s.task t = some task →
    (task.status = .completed ↔ t ∈ (ledger tr).map (·.tid))
  listed : ∀ c ∈ ledger tr,
    ∃ x ∈ tr, x.event.createdTid = some c.tid ∧ x.before.deployment c.pid ≠ none
  nodup : ((ledger tr).map (·.tid)).Nodup

section Invariant

variable {tr : List MeterEntry} {e : MeterEntry}

theorem ledger_append : ledger (tr ++ [e]) = ledger tr ++ e.completion.toList := by
  unfold ledger
  rw [List.filterMap_append]
  cases he : e.completion with
  | none => simp [he]
  | some c => simp [he]

theorem ledger_same (h : e.completion = none) : ledger (tr ++ [e]) = ledger tr := by
  rw [ledger_append, h, Option.toList_none, List.append_nil]

/-- A step that newly completes no task. -/
theorem completion_eq_none (h : ∀ t task', e.after.task t = some task' →
    task'.status = .completed → e.before.task t = some task') : e.completion = none := by
  unfold MeterEntry.completion
  cases he : e.event.submission with
  | none => rfl
  | some p =>
    cases ht : e.before.task p.1.tid with
    | none => simp [ht]
    | some task =>
      simp only [Option.bind_eq_bind, Option.bind_some, ht, ite_eq_right_iff, reduceCtorEq,
        imp_false, not_and]
      intro hno hdone
      obtain ⟨task', ht', hc⟩ := Option.map_eq_some_iff.mp hdone
      have hsame := h p.1.tid task' ht' hc
      rw [ht, Option.some.injEq] at hsame
      exact hno (hsame ▸ hc)

theorem completion_eq_some {sub : ReceiptPost} {fault : Option Fault} {task task' : Task}
    (he : e.event.submission = some (sub, fault)) (ht : e.before.task sub.tid = some task)
    (hno : task.status ≠ .completed) (ht' : e.after.task sub.tid = some task')
    (hc : task'.status = .completed) :
    e.completion = some ⟨sub.tid, task.pid, sub.receipt.count⟩ := by
  unfold MeterEntry.completion
  rw [he]
  simp only [Option.bind_eq_bind, Option.bind_some, ht, ht', Option.map_some, hc, hno, ne_eq,
    not_false_eq_true, and_self, if_true]

theorem exists_mem_append {P : MeterEntry → Prop} (h : ∃ x ∈ tr, P x) : ∃ x ∈ tr ++ [e], P x := by
  obtain ⟨x, hx, hP⟩ := h
  exact ⟨x, List.mem_append_left _ hx, hP⟩

namespace Metered

/-- A quiet step. -/
theorem quiet (h : Metered tr e.before) (hq : Quiet e.before e.after) :
    Metered (tr ++ [e]) e.after := by
  have hsame : ledger (tr ++ [e]) = ledger tr := ledger_same (completion_eq_none hq.completed)
  refine ⟨hq.tame, fun t task' ht ↦ ?_, fun t task' ht ↦ ?_, fun c hc ↦ ?_, ?_⟩
  · obtain ⟨task, hs, -, hpid⟩ := hq.origin t task' ht
    rw [← hpid]
    exact exists_mem_append (h.known t task hs)
  · rw [hsame]
    constructor
    · intro hc
      exact (h.completed t task' (hq.completed t task' ht hc)).mp hc
    · intro hlisted
      obtain ⟨task, hs, -⟩ := hq.origin t task' ht
      have hc := (h.completed t task hs).mpr hlisted
      rcases hq.kept t task hs hc with hstays | hgone
      · rw [ht, Option.some.injEq] at hstays
        rw [hstays]
        exact hc
      · rw [ht] at hgone
        cases hgone
  · rw [hsame] at hc
    exact exists_mem_append (h.listed c hc)
  · rw [hsame]
    exact h.nodup

/-- A step that touches no task. -/
theorem tables (h : Metered tr e.before) (htask : e.after.task = e.before.task)
    (hqueue : e.after.queue = e.before.queue) : Metered (tr ++ [e]) e.after := by
  have hsame : ledger (tr ++ [e]) = ledger tr :=
    ledger_same (completion_eq_none fun t task' ht _ ↦ htask ▸ ht)
  refine ⟨h.tame.congr htask hqueue, fun t task ht ↦ ?_, fun t task ht ↦ ?_, fun c hc ↦ ?_, ?_⟩
  · rw [htask] at ht
    exact exists_mem_append (h.known t task ht)
  · rw [htask] at ht
    rw [hsame]
    exact h.completed t task ht
  · rw [hsame] at hc
    exact exists_mem_append (h.listed c hc)
  · rw [hsame]
    exact h.nodup

/-- A new task. -/
theorem create {a : CreateTask} {r : Response} (h : Metered tr e.before)
    (he : e.event = .act (.createTask a) r) (hnew : e.before.UnusedTask a.tid)
    (hpid : e.before.deployment a.pid ≠ none)
    (hfresh : ∀ x ∈ tr, x.event.createdTid ≠ some a.tid)
    (hafter : e.after = e.before.create a) : Metered (tr ++ [e]) e.after := by
  have hnone : e.completion = none := by
    unfold MeterEntry.completion
    rw [he]
    rfl
  have hsame : ledger (tr ++ [e]) = ledger tr := ledger_same hnone
  have htask : ∀ t task, e.after.task t = some task →
      (t = a.tid ∧ task = a.task e.before.clock) ∨ t ≠ a.tid ∧ e.before.task t = some task := by
    intro t task ht
    rw [hafter, Store.create_task] at ht
    by_cases hid : t = a.tid
    · rw [hid, Function.update_self, Option.some.injEq] at ht
      exact .inl ⟨hid, ht.symm⟩
    · rw [Function.update_of_ne hid] at ht
      exact .inr ⟨hid, ht⟩
  refine ⟨?_, fun t task ht ↦ ?_, fun t task ht ↦ ?_, fun c hc ↦ ?_, ?_⟩
  · rw [hafter]
    exact h.tame.move (.createTask a hnew)
  · rcases htask t task ht with ⟨rfl, rfl⟩ | ⟨-, hs⟩
    · exact ⟨e, List.mem_append_right _ List.mem_cons_self, by rw [he]; rfl, hpid⟩
    · exact exists_mem_append (h.known t task hs)
  · rw [hsame]
    rcases htask t task ht with ⟨rfl, rfl⟩ | ⟨-, hs⟩
    · -- a new task is queued, and its id is not in the ledger
      refine ⟨fun hc ↦ (by cases hc), fun hlisted ↦ ?_⟩
      obtain ⟨c, hc, htid⟩ := List.mem_map.mp hlisted
      obtain ⟨x, hx, hcreated, -⟩ := h.listed c hc
      rw [htid] at hcreated
      exact absurd hcreated (hfresh x hx)
    · exact h.completed t task hs
  · rw [hsame] at hc
    exact exists_mem_append (h.listed c hc)
  · rw [hsame]
    exact h.nodup

/-- A completion. -/
theorem complete {sub : ReceiptPost} {fault : Option Fault} {task : Task} {now : Time}
    (h : Metered tr e.before) (he : e.event.submission = some (sub, fault))
    (hs : e.before.task sub.tid = some task) (hlive : task.status.live = true)
    (htask : e.after.task = Function.update e.before.task sub.tid
      (some (task.complete (.result task.jobId sub.tid) now)))
    (hqueue : e.after.queue = e.before.queue) :
    e.completion = some ⟨sub.tid, task.pid, sub.receipt.count⟩ ∧
      Metered (tr ++ [e]) e.after := by
  have hno : task.status ≠ .completed := by
    intro hc
    rw [hc] at hlive
    cases hlive
  have hself : e.after.task sub.tid =
      some (task.complete (.result task.jobId sub.tid) now) := by
    rw [htask, Function.update_self]
  have hcompletion := completion_eq_some he hs hno hself rfl
  have hledger : ledger (tr ++ [e]) = ledger tr ++ [⟨sub.tid, task.pid, sub.receipt.count⟩] := by
    rw [ledger_append, hcompletion]
    rfl
  have hunlisted : sub.tid ∉ (ledger tr).map (·.tid) := fun hlisted ↦
    hno ((h.completed _ task hs).mpr hlisted)
  have hother : ∀ t task', t ≠ sub.tid → e.after.task t = some task' →
      e.before.task t = some task' := by
    intro t task' ht hs'
    rwa [htask, Function.update_of_ne ht] at hs'
  refine ⟨hcompletion, ?_, fun t task' ht ↦ ?_, fun t task' ht ↦ ?_, fun c hc ↦ ?_, ?_⟩
  · intro t task' ht
    have hwaits : ∀ key, e.after.waits t key = e.before.waits t key := by
      intro key
      rw [Store.waits, Store.waits, hqueue]
    by_cases hid : t = sub.tid
    · rw [hid, hself, Option.some.injEq] at ht
      rw [← ht]
      refine .of_waits (fun _ ↦ ⟨rfl, rfl⟩) fun key ↦ ?_
      rw [hwaits, hid]
      exact (h.tame _ task hs).waits_live hlive key
    · exact (h.tame t task' (hother t task' hid ht)).frame hwaits
  · by_cases hid : t = sub.tid
    · rw [hid, hself, Option.some.injEq] at ht
      rw [← ht, hid]
      exact exists_mem_append (h.known _ task hs)
    · exact exists_mem_append (h.known t task' (hother t task' hid ht))
  · rw [hledger, List.map_append, List.mem_append, List.map_singleton, List.mem_singleton]
    by_cases hid : t = sub.tid
    · rw [hid, hself, Option.some.injEq] at ht
      rw [← ht]
      exact ⟨fun _ ↦ .inr hid, fun _ ↦ rfl⟩
    · rw [h.completed t task' (hother t task' hid ht)]
      exact ⟨.inl, fun hlisted ↦ hlisted.resolve_right hid⟩
  · rw [hledger] at hc
    rcases List.mem_append.mp hc with hc | hc
    · exact exists_mem_append (h.listed c hc)
    · rw [List.mem_singleton.mp hc]
      exact exists_mem_append (h.known _ task hs)
  · rw [hledger, List.map_append, List.map_singleton]
    refine List.nodup_append.mpr ⟨h.nodup, List.nodup_singleton _, ?_⟩
    rintro x hx y hy rfl
    have hid : x = sub.tid := List.mem_singleton.mp hy
    exact hunlisted (hid ▸ hx)

end Metered

end Invariant

/-! ## Steps and runs -/

section Runs

variable [Sha256] {tr tr₁ tr₂ : List MeterEntry} {s : Store} {e : MeterEntry}

omit [Sha256] in
theorem owed_append (s : Store) (apiKey : ApiKey) (l l' : List Completion) :
    owed s apiKey (l ++ l') = owed s apiKey l + owed s apiKey l' := by
  unfold owed
  rw [List.filter_append, List.map_append, List.sum_append]

/-- What a completion adds to what a key owes. -/
def Completion.share (c : Completion) (s : Store) (apiKey : ApiKey) : Int :=
  if s.keyOf c.pid = some apiKey then c.count else 0

omit [Sha256] in
theorem owed_cons (s : Store) (apiKey : ApiKey) (c : Completion) (l : List Completion) :
    owed s apiKey (c :: l) = c.share s apiKey + owed s apiKey l := by
  unfold owed Completion.share
  by_cases h : s.keyOf c.pid = some apiKey <;> simp [h]

omit [Sha256] in
theorem keyOf_congr {s s' : Store} {pid : Pid} (h : s'.deployment pid = s.deployment pid) :
    s'.keyOf pid = s.keyOf pid := by
  unfold Store.keyOf
  rw [h]

omit [Sha256] in
theorem share_gone {s : Store} {c : Completion} (h : s.deployment c.pid = none)
    (apiKey : ApiKey) : c.share s apiKey = 0 := by
  rw [Completion.share, Store.keyOf, h, Option.bind_none]
  exact if_neg (Option.some_ne_none apiKey).symm

section Removed

variable {s s' : Store} {l : List Completion}

omit [Sha256] in
theorem share_nonneg {c : Completion} (hpos : s.keyOf c.pid ≠ none → 0 ≤ c.count)
    (apiKey : ApiKey) : 0 ≤ c.share s apiKey := by
  unfold Completion.share
  split
  · rename_i hkey
    exact hpos (by rw [hkey]; exact Option.some_ne_none apiKey)
  · exact Int.le_refl 0

omit [Sha256] in
theorem share_removed_le {c : Completion}
    (hkept : s'.deployment c.pid = s.deployment c.pid ∨ s'.deployment c.pid = none)
    (hpos : s.keyOf c.pid ≠ none → 0 ≤ c.count) (apiKey : ApiKey) :
    c.share s' apiKey ≤ c.share s apiKey := by
  rcases hkept with hsame | hgone
  · rw [Completion.share, keyOf_congr hsame]
    exact Int.le_refl _
  · rw [share_gone hgone]
    exact share_nonneg hpos apiKey

omit [Sha256] in
/-- A removed deployment takes no share away if and only if it has none. -/
theorem share_removed_iff {c : Completion}
    (hkept : s'.deployment c.pid = s.deployment c.pid ∨ s'.deployment c.pid = none) :
    (∀ apiKey, c.share s' apiKey = c.share s apiKey) ↔
      (s.keyOf c.pid ≠ none → s'.deployment c.pid = none → c.count = 0) := by
  constructor
  · intro hall hkey hgone
    obtain ⟨apiKey, hkey⟩ := Option.ne_none_iff_exists'.mp hkey
    have hself := hall apiKey
    rw [share_gone hgone, Completion.share, if_pos hkey] at hself
    exact hself.symm
  · intro hzero apiKey
    rcases hkept with hsame | hgone
    · rw [Completion.share, keyOf_congr hsame, Completion.share]
    · rw [share_gone hgone, Completion.share]
      split
      · rename_i hkey
        exact (hzero (by rw [hkey]; exact Option.some_ne_none apiKey) hgone).symm
      · rfl

omit [Sha256] in
/-- Without some of the deployments a key owes at most what it did. -/
theorem owed_removed_le
    (hkept : ∀ c ∈ l, s'.deployment c.pid = s.deployment c.pid ∨ s'.deployment c.pid = none)
    (hpos : ∀ c ∈ l, s.keyOf c.pid ≠ none → 0 ≤ c.count) (apiKey : ApiKey) :
    owed s' apiKey l ≤ owed s apiKey l := by
  induction l with
  | nil => exact Int.le_refl _
  | cons c l ih =>
    rw [owed_cons, owed_cons]
    rw [List.forall_mem_cons] at hkept hpos
    exact Int.add_le_add (share_removed_le hkept.1 hpos.1 apiKey) (ih hkept.2 hpos.2)

omit [Sha256] in
/-- No key owes less if and only if what is removed has counted nothing. -/
theorem owed_removed_iff
    (hkept : ∀ c ∈ l, s'.deployment c.pid = s.deployment c.pid ∨ s'.deployment c.pid = none)
    (hpos : ∀ c ∈ l, s.keyOf c.pid ≠ none → 0 ≤ c.count) :
    (∀ apiKey, owed s' apiKey l = owed s apiKey l) ↔
      ∀ c ∈ l, s.keyOf c.pid ≠ none → s'.deployment c.pid = none → c.count = 0 := by
  induction l with
  | nil =>
    refine ⟨fun _ c hc ↦ ?_, fun _ _ ↦ rfl⟩
    cases hc
  | cons c l ih =>
    rw [List.forall_mem_cons] at hkept hpos
    rw [List.forall_mem_cons, ← ih hkept.2 hpos.2, ← share_removed_iff hkept.1, ← forall_and]
    refine forall_congr' fun apiKey ↦ ?_
    have hfirst := share_removed_le hkept.1 hpos.1 apiKey
    have hrest := owed_removed_le hkept.2 hpos.2 apiKey
    rw [owed_cons, owed_cons]
    omega

end Removed

omit [Sha256] in
theorem owed_single (s : Store) (apiKey : ApiKey) (c : Completion) :
    owed s apiKey [c] = c.share s apiKey := by
  rw [owed_cons]
  exact Int.add_zero _

omit [Sha256] in
theorem used_charge (s : Store) (apiKey apiKey' : ApiKey) (amount : Int) :
    (s.charge apiKey amount).used apiKey' =
      s.used apiKey' + if apiKey = apiKey' then amount else 0 := by
  unfold Store.used
  rw [Store.charge_instructionsUsed]
  by_cases h : apiKey = apiKey'
  · rw [h, Function.update_self, if_pos rfl]
    rfl
  · rw [Function.update_of_ne (Ne.symm h), if_neg h, Int.add_zero]

omit [Sha256] in
theorem usageAmount_count {used : Option Int} {receipt : Receipt} {amount i : Int}
    (hint : receipt.countField = .int i) (h : usageAmount used receipt.countField = some amount) :
    amount = receipt.count := by
  rw [Receipt.count, hint]
  rw [hint, usageAmount, incrbyAmount] at h
  split at h
  · rename_i hincr
    split at hincr
    · obtain rfl := Option.some.inj hincr
      split at h
      · exact (Option.some.inj h).symm
      · cases h
    · cases hincr
  · cases h

/-- What a step charges a key. -/
def MeterEntry.charged (e : MeterEntry) (apiKey : ApiKey) : Int :=
  e.after.used apiKey - e.before.used apiKey

/-- What a step completes for a key. -/
def MeterEntry.earned (e : MeterEntry) (apiKey : ApiKey) : Int :=
  owed e.after apiKey e.completion.toList

/-- A step changes no counter and completes nothing. -/
def MeterEntry.Idle (e : MeterEntry) : Prop :=
  e.after.instructionsUsed = e.before.instructionsUsed ∧ e.completion = none

/-- A step keeps the invariant.  It charges as it should if and only if it charges what it
completes, and nothing negative.  Only a step that does neither removes deployments. -/
structure StepKept (tr : List MeterEntry) (e : MeterEntry) : Prop where
  metered : Metered (tr ++ [e]) e.after
  exact_iff : e.ChargesExactly ↔
    ∀ apiKey, e.charged apiKey = e.earned apiKey ∧ 0 ≤ e.charged apiKey
  deployment : ∀ c ∈ ledger tr, e.after.deployment c.pid = e.before.deployment c.pid ∨
    e.after.deployment c.pid = none
  idle : e.after.deployment = e.before.deployment ∨ e.Idle

omit [Sha256] in
theorem MeterEntry.Idle.charged_earned (h : e.Idle) (apiKey : ApiKey) :
    e.charged apiKey = 0 ∧ e.earned apiKey = 0 := by
  refine ⟨?_, ?_⟩
  · unfold MeterEntry.charged Store.used
    rw [h.1, Int.sub_self]
  · unfold MeterEntry.earned
    rw [h.2]
    rfl

/-- An idle step that charges as it should does what is asked. -/
theorem exact_iff_of_idle (hexact : e.ChargesExactly) (hidle : e.Idle) :
    e.ChargesExactly ↔ ∀ apiKey, e.charged apiKey = e.earned apiKey ∧ 0 ≤ e.charged apiKey := by
  refine ⟨fun _ apiKey ↦ ?_, fun _ ↦ hexact⟩
  rw [(hidle.charged_earned apiKey).1, (hidle.charged_earned apiKey).2]
  exact ⟨rfl, Int.le_refl 0⟩

/-- A step that leaves the deployments alone. -/
theorem StepKept.of_same (hmetered : Metered (tr ++ [e]) e.after)
    (hiff : e.ChargesExactly ↔ ∀ apiKey, e.charged apiKey = e.earned apiKey ∧ 0 ≤ e.charged apiKey)
    (hsame : e.after.deployment = e.before.deployment) : StepKept tr e :=
  ⟨hmetered, hiff, fun c _ ↦ Or.inl (by rw [hsame]), Or.inl hsame⟩

theorem StepKept.quiet (h : Metered tr e.before) (hq : Quiet e.before e.after)
    (hexact : e.ChargesExactly) : StepKept tr e :=
  .of_same (h.quiet hq) (exact_iff_of_idle hexact ⟨hq.used, completion_eq_none hq.completed⟩)
    hq.deployment

theorem exact_of_no_receipt (h : e.event.submission = none) : e.ChargesExactly := by
  intro sub fault nodeId task apiKey he
  rw [h] at he
  cases he

section Receipts

variable {sub : ReceiptPost} {fault : Option Fault} {nodeId : NodeId} {task : Task}
  {apiKey : ApiKey}

theorem exact_iff_of_charging (he : e.event.submission = some (sub, fault))
    (hv : sub.Verified e.before nodeId task) (hkey : e.before.keyOf task.pid = some apiKey)
    (hamount : usageAmount (e.before.instructionsUsed apiKey) sub.receipt.countField ≠ none)
    (hcharging : Charging fault) :
    e.ChargesExactly ↔ 0 ≤ sub.receipt.count ∧ (Between fault → sub.receipt.count = 0) := by
  refine ⟨fun h ↦ h sub fault nodeId task apiKey he hv hkey hamount hcharging, fun h ↦ ?_⟩
  intro sub' fault' nodeId' task' apiKey' he' _ _ _ _
  rw [he] at he'
  cases he'
  exact h

omit [Sha256] in
theorem complete_task_eq {s : Store} (ht : s.task sub.tid = some task) :
    (s.complete sub.tid nodeId task sub.resultBytes).task = Function.update s.task sub.tid
      (some (task.complete (.result task.jobId sub.tid) s.clock)) := by
  unfold Store.complete
  dsimp only
  rw [ht, Option.map_some]

omit [Sha256] in
/-- The charge of a step whose counters are as after one charge. -/
theorem charged_eq {amount : Int}
    (hused : e.after.instructionsUsed = (e.before.charge apiKey amount).instructionsUsed)
    (k : ApiKey) : e.charged k = if apiKey = k then amount else 0 := by
  have hafter : e.after.used k = (e.before.charge apiKey amount).used k := by
    unfold Store.used
    rw [hused]
  unfold MeterEntry.charged
  rw [hafter, used_charge]
  omega

/-- A charge without its completion. -/
theorem StepKept.lost {amount : Int} (h : Metered tr e.before)
    (he : e.event.submission = some (sub, fault)) (hv : sub.Verified e.before nodeId task)
    (hkey : e.before.keyOf task.pid = some apiKey)
    (hamount : usageAmount (e.before.instructionsUsed apiKey) sub.receipt.countField = some amount)
    (hcount : amount = sub.receipt.count) (hcharging : Charging fault) (hbetween : Between fault)
    (hsame : SameTasks (e.before.charge apiKey amount) e.after) : StepKept tr e := by
  have hnone : e.completion = none := completion_eq_none fun t task' ht _ ↦ by
    rw [hsame.task] at ht
    exact ht
  refine .of_same (h.tables hsame.task hsame.queue) ?_ hsame.deployment
  rw [exact_iff_of_charging he hv hkey (by rw [hamount]; exact Option.some_ne_none amount)
    hcharging]
  have hearned : ∀ k, e.earned k = 0 := by
    intro k
    unfold MeterEntry.earned
    rw [hnone]
    rfl
  simp only [charged_eq hsame.used, hearned, hcount]
  constructor
  · rintro ⟨-, hzero⟩ k
    rw [hzero hbetween]
    simp
  · intro hall
    have hself := (hall apiKey).1
    rw [if_pos rfl] at hself
    rw [hself]
    exact ⟨Int.le_refl 0, fun _ ↦ rfl⟩

/-- A completion for a deployment without a key. -/
theorem StepKept.free (h : Metered tr e.before) (he : e.event.submission = some (sub, fault))
    (hv : sub.Verified e.before nodeId task) (hlive : task.status.live = true)
    (hkey : e.before.keyOf task.pid = none)
    (hsame : SameTasks (e.before.complete sub.tid nodeId task sub.resultBytes) e.after) :
    StepKept tr e := by
  have hmap : e.after.task = Function.update e.before.task sub.tid
      (some (task.complete (.result task.jobId sub.tid) e.before.clock)) := by
    rw [hsame.task]
    exact complete_task_eq hv.may.stored
  obtain ⟨hcompletion, hmetered⟩ := h.complete he hv.may.stored hlive hmap hsame.queue
  refine .of_same hmetered ?_ hsame.deployment
  have hexact : e.ChargesExactly := by
    intro sub' fault' nodeId' task' apiKey he' hv' hkey' _ _
    rw [he] at he'
    cases he'
    obtain ⟨rfl, rfl⟩ := hv.unique hv'
    rw [hkey] at hkey'
    cases hkey'
  refine ⟨fun _ k ↦ ?_, fun _ ↦ hexact⟩
  have hcharged : e.charged k = 0 := by
    unfold MeterEntry.charged Store.used
    rw [hsame.used]
    exact Int.sub_self _
  have hearned : e.earned k = 0 := by
    unfold MeterEntry.earned
    rw [hcompletion]
    refine (owed_single _ _ _).trans (if_neg ?_)
    rw [keyOf_congr (congrFun hsame.deployment _)]
    show e.before.keyOf task.pid ≠ some k
    rw [hkey]
    exact (Option.some_ne_none k).symm
  rw [hcharged, hearned]
  exact ⟨rfl, Int.le_refl 0⟩

/-- A charge and its completion. -/
theorem StepKept.charged {amount : Int} (h : Metered tr e.before)
    (he : e.event.submission = some (sub, fault)) (hv : sub.Verified e.before nodeId task)
    (hlive : task.status.live = true) (hkey : e.before.keyOf task.pid = some apiKey)
    (hamount : usageAmount (e.before.instructionsUsed apiKey) sub.receipt.countField = some amount)
    (hcount : amount = sub.receipt.count) (hcharging : Charging fault) (hbetween : ¬Between fault)
    (hsame : SameTasks ((e.before.charge apiKey amount).complete sub.tid nodeId task
      sub.resultBytes) e.after) : StepKept tr e := by
  have hmap : e.after.task = Function.update e.before.task sub.tid
      (some (task.complete (.result task.jobId sub.tid) e.before.clock)) := by
    rw [hsame.task]
    exact complete_task_eq (s := e.before.charge apiKey amount) hv.may.stored
  obtain ⟨hcompletion, hmetered⟩ := h.complete he hv.may.stored hlive hmap hsame.queue
  refine .of_same hmetered ?_ hsame.deployment
  rw [exact_iff_of_charging he hv hkey (by rw [hamount]; exact Option.some_ne_none amount)
    hcharging]
  have hearned : ∀ k, e.earned k = if apiKey = k then sub.receipt.count else 0 := by
    intro k
    unfold MeterEntry.earned
    rw [hcompletion]
    refine (owed_single _ _ _).trans ?_
    rw [Completion.share, keyOf_congr (congrFun hsame.deployment _)]
    show (if e.before.keyOf task.pid = some k then sub.receipt.count else 0) = _
    rw [hkey]
    exact if_congr Option.some_inj rfl rfl
  simp only [charged_eq hsame.used, hearned, hcount, true_and]
  constructor
  · rintro ⟨hpos, -⟩ k
    split
    · exact hpos
    · exact Int.le_refl 0
  · intro hall
    have hself := hall apiKey
    rw [if_pos rfl] at hself
    exact ⟨hself, fun hno ↦ absurd hno hbetween⟩

theorem StepKept.receipted (h : Metered tr e.before)
    (hint : ∃ i, sub.receipt.countField = .int i) (he : e.event.submission = some (sub, fault))
    (hr : Receipted e.before sub fault e.after) : StepKept tr e := by
  obtain ⟨i, hint⟩ := hint
  have hlive : ∀ {nodeId task}, sub.Verified e.before nodeId task →
      task.status.live = true := by
    intro nodeId task hv
    obtain ⟨token, hc, -⟩ := hv.may.token
    exact (h.tame _ task hv.may.stored).live_of_claimToken
      (by rw [hc]; exact Option.some_ne_none token)
  cases hr with
  | quiet hq hno =>
    refine .quiet h hq fun sub' fault' nodeId task apiKey he' hv hkey hamount hcharging ↦ ?_
    rw [he] at he'
    cases he'
    exact absurd hcharging (hno nodeId task apiKey hv hkey hamount)
  | lost hv hkey hamount hcharging hbetween hsame =>
    exact .lost h he hv hkey hamount (usageAmount_count hint hamount) hcharging hbetween hsame
  | free hv hkey hsame => exact .free h he hv (hlive hv) hkey hsame
  | charged hv hkey hamount hcharging hbetween hsame =>
    exact .charged h he hv (hlive hv) hkey hamount (usageAmount_count hint hamount) hcharging
      hbetween hsame

end Receipts

/-- A creation. -/
theorem StepKept.create {b : CreateTask} {r : Response} (hm : Metered tr e.before)
    (hexact : e.ChargesExactly) (hevent : e.event = .act (.createTask b) r)
    (hnew : e.before.UnusedTask b.tid) (hpid : e.before.deployment b.pid ≠ none)
    (hfresh : ∀ x ∈ tr, x.event.createdTid ≠ some b.tid)
    (hafter : e.after = e.before.create b) : StepKept tr e := by
  have hcompletion : e.completion = none := by
    unfold MeterEntry.completion
    rw [hevent]
    rfl
  have hidle : e.Idle := ⟨by rw [hafter]; rfl, hcompletion⟩
  refine .of_same (hm.create hevent hnew hpid hfresh hafter) (exact_iff_of_idle hexact hidle) ?_
  rw [hafter]
  rfl

/-- A change of the tables. -/
theorem StepKept.tables {userApi : ApiKey → Option Nat} {deployment : Pid → Option Deployment}
    (hm : Metered tr e.before) (hexact : e.ChargesExactly)
    (hevent : e.event = .tables userApi deployment)
    (hafter : e.after = { e.before with userApi, deployment })
    (hkept : ∀ pid d d', e.before.deployment pid = some d → deployment pid = some d' → d' = d)
    (hmakes : ∀ pid, e.event.Makes e.before pid → ∀ x ∈ tr, x.before.deployment pid = none) :
    StepKept tr e := by
  have htask : e.after.task = e.before.task := by rw [hafter]
  have hidle : e.Idle := by
    refine ⟨by rw [hafter], completion_eq_none fun t task' ht _ ↦ ?_⟩
    rw [htask] at ht
    exact ht
  refine ⟨hm.tables htask (by rw [hafter]), exact_iff_of_idle hexact hidle, fun c hc ↦ ?_,
    Or.inr hidle⟩
  obtain ⟨x, hx, -, hseen⟩ := hm.listed c hc
  have hafter' : e.after.deployment c.pid = deployment c.pid := by rw [hafter]
  rw [hafter']
  cases hnew : deployment c.pid with
  | none => exact Or.inr rfl
  | some d' =>
    left
    cases hold : e.before.deployment c.pid with
    | none =>
      -- the pid of a completed task is not drawn again
      have hdrawn : e.event.Makes e.before c.pid := by
        rw [hevent]
        exact ⟨hold, by rw [hnew]; exact Option.some_ne_none d'⟩
      exact absurd (hmakes c.pid hdrawn x hx) hseen
    | some d => rw [hkept c.pid d d' hold hnew]

theorem MeterStep.kept (h : MeterStep e.before e.event e.after) (hm : Metered tr e.before)
    (hfresh : ∀ tid, e.event.createdTid = some tid → ∀ x ∈ tr, x.event.createdTid ≠ some tid)
    (hmakes : ∀ pid, e.event.Makes e.before pid → ∀ x ∈ tr, x.before.deployment pid = none)
    (hint : ∀ sub fault, e.event.submission = some (sub, fault) →
      ∃ i, sub.receipt.countField = .int i) : StepKept tr e := by
  cases hsub : e.event.submission with
  | some p => exact .receipted hm (hint p.1 p.2 hsub) hsub (h.receipted hm.tame hsub)
  | none =>
    have hexact := exact_of_no_receipt hsub
    generalize hevent : e.event = event at h
    generalize hafter : e.after = after at h
    cases h with
    | @act a r _ hnew hpid hruns =>
      by_cases hcreate : ∃ b, a = .createTask b
      · obtain ⟨b, rfl⟩ := hcreate
        have hcreated : after = e.before.create b := by
          have hwp : wp (handle (.createTask b)) (fun _ s' ↦ s' = e.before.create b) e.before := by
            simp only [handle, wp_bind, wp_createTask, wp_pure]
          exact hwp.elim hruns
        have htid : e.event.createdTid = some b.tid := by
          rw [hevent]
          rfl
        exact .create hm hexact hevent hnew (hpid b rfl) (hfresh b.tid htid)
          (hafter.trans hcreated)
      · rw [← hafter] at hruns
        rw [hevent] at hsub
        exact .quiet hm (quiet_of_runs hm.tame hnew hruns (fun b hb ↦ hcreate ⟨b, hb⟩) hsub) hexact
    | call | write =>
      rw [hevent] at hsub
      cases hsub
    | tables hkept => exact .tables hm hexact hevent hafter hkept hmakes

theorem MeterRun.metered (h : MeterRun tr s) : Metered tr s := by
  induction h with
  | start =>
    refine ⟨fun t task ht ↦ ?_, fun t task ht ↦ ?_, fun t task ht ↦ ?_, fun c hc ↦ ?_,
      List.nodup_nil⟩
    · cases ht
    · cases ht
    · cases ht
    · cases hc
  | step _ hfresh hmakes hint hstep ih => exact (MeterStep.kept hstep ih hfresh hmakes hint).metered

theorem MeterRun.last (h : MeterRun (tr ++ [e]) s) :
    MeterRun tr e.before ∧ StepKept tr e ∧ e.after = s := by
  generalize hall : tr ++ [e] = all at h
  cases h with
  | start => simp at hall
  | step hrun hfresh hmakes hint hstep =>
    obtain ⟨rfl, hlast⟩ := List.append_inj' hall rfl
    cases hlast
    exact ⟨hrun, MeterStep.kept hstep hrun.metered hfresh hmakes hint, rfl⟩

omit [Sha256] in
theorem balanced_initial (deployment : Pid → Option Deployment) (userApi : ApiKey → Option Nat)
    (nodeRegistrationToken : Option Token) :
    Balanced [] (Store.initial deployment userApi nodeRegistrationToken) := fun _ ↦ rfl

/-- No completed task of a key has counted down. -/
def Counted (tr : List MeterEntry) (s : Store) : Prop :=
  ∀ c ∈ ledger tr, s.keyOf c.pid ≠ none → 0 ≤ c.count

/-- A step leaves right accounts, and no counter that has decreased. -/
def MeterEntry.Accounts (tr : List MeterEntry) (e : MeterEntry) : Prop :=
  Balanced (tr ++ [e]) e.after ∧ ∀ apiKey, e.before.used apiKey ≤ e.after.used apiKey

/-- Accounting is right in every state a run reaches, and no counter has decreased. -/
def Accounted (tr : List MeterEntry) : Prop :=
  ∀ tr₁ e tr₂, tr = tr₁ ++ e :: tr₂ → e.Accounts tr₁

omit [Sha256] in
/-- From a balanced state a step leads to a balanced one if and only if what it charges is what it
completes less what it removes. -/
theorem balanced_iff (hb : Balanced tr e.before) :
    Balanced (tr ++ [e]) e.after ↔ ∀ apiKey, owed e.before apiKey (ledger tr) + e.charged apiKey =
      owed e.after apiKey (ledger tr) + e.earned apiKey := by
  unfold Balanced
  refine forall_congr' fun apiKey ↦ ?_
  have hbefore := hb apiKey
  rw [ledger_append, owed_append, ← hbefore]
  unfold MeterEntry.charged MeterEntry.earned
  omega

/-- A step of a run with right accounts leaves them right if and only if it is exact. -/
theorem StepKept.accounts_iff (h : StepKept tr e) (hb : Balanced tr e.before)
    (hcounted : Counted tr e.before) : e.Accounts tr ↔ e.Exact tr := by
  unfold MeterEntry.Accounts MeterEntry.Exact
  rw [balanced_iff hb, h.exact_iff]
  have hmono : ∀ apiKey, e.before.used apiKey ≤ e.after.used apiKey ↔ 0 ≤ e.charged apiKey := by
    intro apiKey
    unfold MeterEntry.charged
    omega
  simp only [hmono]
  have hlost := owed_removed_iff h.deployment hcounted
  rcases h.idle with hsame | hidle
  · -- nothing is removed
    have hspares : e.Spares tr := by
      intro c _ hkey hgone
      rw [hsame] at hgone
      rw [Store.keyOf, hgone] at hkey
      exact absurd rfl hkey
    have hkeys := hlost.mpr hspares
    simp only [hkeys, Int.add_right_inj]
    exact ⟨fun hall ↦ ⟨fun apiKey ↦ ⟨hall.1 apiKey, hall.2 apiKey⟩, hspares⟩,
      fun hall ↦ ⟨fun apiKey ↦ (hall.1 apiKey).1, fun apiKey ↦ (hall.1 apiKey).2⟩⟩
  · -- nothing is charged and nothing completed
    have hzero := hidle.charged_earned
    simp only [(hzero _).1, (hzero _).2, Int.add_zero, Int.le_refl, implies_true, and_true,
      true_and]
    exact ⟨fun hall ↦ hlost.mp fun apiKey ↦ (hall apiKey).symm,
      fun hspares apiKey ↦ (hlost.mpr hspares apiKey).symm⟩

/-- An exact step counts nothing down. -/
theorem StepKept.counted (h : StepKept tr e) (hcounted : Counted tr e.before)
    (hexact : e.Exact tr) : Counted (tr ++ [e]) e.after := by
  intro c hc hkey
  rw [ledger_append, List.mem_append] at hc
  rcases hc with hc | hc
  · rcases h.deployment c hc with hsame | hgone
    · rw [keyOf_congr hsame] at hkey
      exact hcounted c hc hkey
    · rw [Store.keyOf, hgone] at hkey
      exact absurd rfl hkey
  · -- the key is charged the count
    obtain ⟨apiKey, hkey⟩ := Option.ne_none_iff_exists'.mp hkey
    obtain ⟨hcharged, hpos⟩ := h.exact_iff.mp hexact.1 apiKey
    have hcompletion : e.completion = some c := Option.mem_toList.mp hc
    have hearned : e.earned apiKey = c.count := by
      unfold MeterEntry.earned
      rw [hcompletion]
      exact (owed_single _ _ _).trans (if_pos hkey)
    rw [← hearned, ← hcharged]
    exact hpos

omit [Sha256] in
/-- What holds of every step of a run of one more step. -/
theorem forall_split_concat {P : List MeterEntry → MeterEntry → Prop} :
    (∀ tr₁ x tr₂, tr ++ [e] = tr₁ ++ x :: tr₂ → P tr₁ x) ↔
      (∀ tr₁ x tr₂, tr = tr₁ ++ x :: tr₂ → P tr₁ x) ∧ P tr e := by
  constructor
  · intro hall
    refine ⟨fun tr₁ x tr₂ hs ↦ hall tr₁ x (tr₂ ++ [e]) ?_, hall tr e [] rfl⟩
    rw [hs, List.append_assoc, List.cons_append]
  · rintro ⟨hall, hlast⟩ tr₁ x tr₂ hs
    induction tr₂ using List.reverseRecOn with
    | nil =>
      obtain ⟨rfl, hx⟩ := List.append_inj' hs rfl
      cases hx
      exact hlast
    | append_singleton tr₂ y _ =>
      have hassoc : tr₁ ++ x :: (tr₂ ++ [y]) = (tr₁ ++ x :: tr₂) ++ [y] := by simp
      rw [hassoc] at hs
      exact hall tr₁ x tr₂ (List.append_inj' hs rfl).1

/-- A run has right accounts throughout if and only if all its steps are exact; and then its last
state is balanced. -/
theorem MeterRun.accounted_iff (h : MeterRun tr s) :
    (Accounted tr ↔ ∀ tr₁ e tr₂, tr = tr₁ ++ e :: tr₂ → e.Exact tr₁) ∧
      (Accounted tr → Balanced tr s ∧ Counted tr s) := by
  induction tr using List.reverseRecOn generalizing s with
  | nil =>
    refine ⟨⟨fun _ tr₁ e tr₂ hs ↦ by simp at hs, fun _ tr₁ e tr₂ hs ↦ by simp at hs⟩,
      fun _ ↦ ⟨?_, fun c hc ↦ nomatch hc⟩⟩
    generalize hall : ([] : List MeterEntry) = all at h
    cases h with
    | start => exact balanced_initial _ _ _
    | step => simp at hall
  | append_singleton tr e ih =>
    obtain ⟨hrun, hkept, rfl⟩ := h.last
    obtain ⟨hiff, hgood⟩ := ih hrun
    unfold Accounted
    rw [forall_split_concat, forall_split_concat]
    constructor
    · rw [← hiff]
      refine and_congr_right fun haccounted ↦ ?_
      exact hkept.accounts_iff (hgood haccounted).1 (hgood haccounted).2
    · rintro ⟨haccounted, hlast⟩
      obtain ⟨hb, hcounted⟩ := hgood haccounted
      exact ⟨hlast.1, hkept.counted hcounted ((hkept.accounts_iff hb hcounted).mp hlast)⟩

end Runs

/-- In every run the ledger lists the completed tasks, each once.  Every key has used the sum of
the counts of the completed tasks of its deployments in all states of the run, and no counter
decreases, if and only if every step is exact. -/
theorem usage_exact_iff [Sha256] {tr : List MeterEntry} {s : Store} (h : MeterRun tr s) :
    ((ledger tr).map (·.tid)).Nodup ∧
    (∀ t task, s.task t = some task →
      (task.status = .completed ↔ t ∈ (ledger tr).map (·.tid))) ∧
    (Accounted tr ↔ ∀ tr₁ e tr₂, tr = tr₁ ++ e :: tr₂ → e.Exact tr₁) :=
  ⟨h.metered.nodup, h.metered.completed, h.accounted_iff.1⟩

/-! ## A task that is charged twice -/

/-- A request that ends. -/
def Entry.metered (e : Entry) : MeterEntry := ⟨e.before, .act e.action e.response, e.after⟩

/-- A run without submissions, for deployments that exist. -/
theorem Run.meter [Sha256] {tr : List Entry} {s : Store} (h : Run tr s)
    (hpid : ∀ e ∈ tr, ∀ b, e.action = .createTask b → e.before.deployment b.pid ≠ none)
    (hno : ∀ e ∈ tr, ∀ auth tid claimToken body, e.action ≠ .result auth tid claimToken body) :
    MeterRun (tr.map Entry.metered) s := by
  induction h with
  | start => exact .start _ _ _
  | @step tr s a r s' hrun hfresh hruns ih =>
    have hlast : (⟨s, a, r, s'⟩ : Entry) ∈ tr ++ [⟨s, a, r, s'⟩] :=
      List.mem_append_right _ List.mem_cons_self
    rw [List.map_append]
    refine (ih (fun e he ↦ hpid e (List.mem_append_left _ he)) fun e he ↦
      hno e (List.mem_append_left _ he)).step (fun tid htid x hx hxtid ↦ ?_)
      (fun pid hmakes ↦ hmakes.elim) (fun sub fault hsub ↦ ?_)
      (.act (hrun.newTo hfresh) (hpid _ hlast) hruns)
    · -- a task id is drawn
      obtain ⟨e, he, rfl⟩ := List.mem_map.mp hx
      have hdraws : ∀ {a : Action} {r : Response}, (MeterEvent.act a r).createdTid = some tid →
          tid ∈ a.draws := by
        intro a r hcreated
        cases a with
        | createTask b =>
          cases hcreated
          exact List.mem_cons_self
        | _ => cases hcreated
      exact hfresh.2 tid (hdraws htid) e he (hdraws hxtid)
    · obtain ⟨ha, -⟩ := MeterEvent.act_submission hsub
      exact absurd ha (hno _ hlast _ _ _ _)

namespace Sample

/-- `nodeA` has run `task1`, and signs a receipt with a count. -/
def signed (count : Int) : ReceiptPost where
  auth := authA
  tid := task1
  claimToken := some claim1
  resultBytes := []
  receipt :=
    let receipt : Receipt := ⟨some (.str task1.text), some (.int count), none,
      some (.str (Sha256.hexdigest [])), .undecodable⟩
    { receipt with signature := .decoded (.pss 1 (receipt.message (Sha256.hexdigest []))) }

def claimTask1 : List Action :=
  [.tick second, join nodeA keyA (some 1), create task1 (some nodeA),
    .claim authA claim1 download1]

def claimedTask1 : Store := lastStore twoKeys (performed 300 twoKeys claimTask1)

def meteredTask1 : List MeterEntry := (performed 300 twoKeys claimTask1).map Entry.metered

/-- The write of the result file fails. -/
def unwritten : Store := execVisit 7 (handle (signed 7).action) claimedTask1

def resubmitted : Store := storeAfter (handle (signed 7).action) unwritten

/-- The submission ends. -/
def submitted (count : Int) : Store := storeAfter (handle (signed count).action) claimedTask1

/-- Nothing has been submitted for `task1`. -/
theorem meteredTask1_unsubmitted {e : MeterEntry} (he : e ∈ meteredTask1) :
    e.event.submission = none := by
  obtain ⟨x, hx, rfl⟩ := List.mem_map.mp he
  by_contra hsome
  obtain ⟨⟨sub, fault⟩, hsub⟩ := Option.ne_none_iff_exists'.mp hsome
  have haction := performed_actions hx
  rw [(MeterEvent.act_submission hsub).1] at haction
  simp [claimTask1, join, create, ReceiptPost.action] at haction

theorem meterRun_claimed : MeterRun meteredTask1 claimedTask1 := by
  have hends : (perform 300 twoKeys claimTask1).isSome = true ∧
      ((performed 300 twoKeys claimTask1).all
        fun e ↦ (e.before.deployment pid).isSome) = true := by
    decide +kernel
  refine (run_performed hends.1 (by decide +kernel)).meter (fun e he b hb ↦ ?_)
    fun e he auth tid claimToken body hbody ↦ ?_
  · have hdeployment := List.all_eq_true.mp hends.2 e he
    have haction := performed_actions he
    rw [hb] at haction
    have hplanned : b = planned task1 (some nodeA) := by
      simpa [claimTask1, join, create] using haction
    rw [hplanned]
    exact Option.isSome_iff_ne_none.mp hdeployment
  · have haction := performed_actions he
    rw [hbody] at haction
    simp [claimTask1, join, create] at haction

/-- The entry of a submission that ends. -/
def signedEntry (s : Store) (count : Int) : MeterEntry where
  before := s
  event := .act (signed count).action
    (((exec 300 (handle (signed count).action) s).map Prod.fst).getD .silent)
  after := storeAfter (handle (signed count).action) s

theorem meterRun_signed {tr : List MeterEntry} {s : Store} (h : MeterRun tr s) {count : Int}
    (hends : ((exec 300 (handle (signed count).action) s).map Prod.fst).isSome = true) :
    MeterRun (tr ++ [signedEntry s count]) (storeAfter (handle (signed count).action) s) := by
  obtain ⟨r, hr⟩ := Option.isSome_iff_exists.mp hends
  refine h.step (fun tid htid ↦ by cases htid) (fun pid hmakes ↦ hmakes.elim)
    (fun sub fault hsub ↦ ?_) (.act trivial (fun b hb ↦ by cases hb) ?_)
  · cases hsub
    exact ⟨count, rfl⟩
  · rw [hr, Option.getD_some]
    exact runs_storeAfter hr

end Sample

open Sample in
/-- The submission ends without a failure. -/
theorem usage_exact_iff_submitted : ∃ tr, MeterRun tr (submitted 7) ∧ Accounted tr ∧
    (submitted 7).used keyOne = 7 := by
  have hends : ((exec 300 (handle (signed 7).action) claimedTask1).map Prod.fst).isSome = true ∧
      (submitted 7).used keyOne = 7 := by
    decide +kernel
  have hrun := meterRun_signed meterRun_claimed hends.1
  have hspares : ∀ {tr₁ tr₂ : List MeterEntry} (e : MeterEntry), meteredTask1 = tr₁ ++ tr₂ →
      e.Spares tr₁ := by
    intro tr₁ tr₂ e hs c hc
    obtain ⟨x, hx, hcompletion⟩ := List.mem_filterMap.mp hc
    have hnone := meteredTask1_unsubmitted (hs ▸ List.mem_append_left tr₂ hx)
    rw [MeterEntry.completion, hnone] at hcompletion
    cases hcompletion
  refine ⟨_, hrun, (usage_exact_iff hrun).2.2.mpr (forall_split_concat.mpr ⟨?_, ?_⟩), hends.2⟩
  · intro tr₁ e tr₂ hs
    exact ⟨exact_of_no_receipt (meteredTask1_unsubmitted
      (hs ▸ List.mem_append_right tr₁ List.mem_cons_self)), hspares e hs⟩
  · refine ⟨fun sub fault nodeId task apiKey hsub _ _ _ _ ↦ ?_,
      hspares _ (List.append_nil meteredTask1).symm⟩
    cases hsub
    exact ⟨by decide, fun hbetween ↦ hbetween.elim⟩

open Sample in
/-- After the failed write the task is submitted again, and charged again; a negative count lowers
the counter; and what a task has counted stays on the key when its deployment is removed. -/
theorem failed_write_charges_twice :
    (∃ tr, MeterRun tr resubmitted ∧ resubmitted.used keyOne = 14 ∧
      owed resubmitted keyOne (ledger tr) = 7) ∧
    (∃ tr e, MeterRun (tr ++ [e]) (submitted (-3)) ∧
      e.after.used keyOne < e.before.used keyOne) ∧
    ∃ tr s, MeterRun tr s ∧ s.used keyOne = 7 ∧ owed s keyOne (ledger tr) = 0 := by
  have hends :
      ((exec 300 (handle (signed 7).action) unwritten).map Prod.fst).isSome = true ∧
      ((exec 300 (handle (signed (-3)).action) claimedTask1).map Prod.fst).isSome = true ∧
      ((exec 300 (handle (signed 7).action) claimedTask1).map Prod.fst).isSome = true ∧
      resubmitted.used keyOne = 14 ∧ owed resubmitted keyOne (ledger (meteredTask1 ++
        [⟨claimedTask1, .fails (signed 7) (.call 7), unwritten⟩] ++
          [signedEntry unwritten 7])) = 7 ∧
      (submitted (-3)).used keyOne < claimedTask1.used keyOne ∧
      (submitted 7).used keyOne = 7 := by
    decide +kernel
  obtain ⟨hresubmit, hnegative, hseven, hused, howed, hless, hcharged⟩ := hends
  have hfails : MeterRun (meteredTask1 ++ [⟨claimedTask1, .fails (signed 7) (.call 7), unwritten⟩])
      unwritten := by
    refine meterRun_claimed.step (fun tid htid ↦ by cases htid) (fun pid hmakes ↦ hmakes.elim)
      (fun sub fault hsub ↦ ?_) .call
    cases hsub
    exact ⟨7, rfl⟩
  refine ⟨⟨_, meterRun_signed hfails hresubmit, hused, howed⟩,
    ⟨_, _, meterRun_signed meterRun_claimed hnegative, hless⟩, ?_⟩
  have hremoves : MeterStep (submitted 7) (.tables (submitted 7).userApi fun _ ↦ none)
      { submitted 7 with userApi := (submitted 7).userApi, deployment := fun _ ↦ none } :=
    .tables fun pid d d' _ hnew ↦ nomatch hnew
  have hunmade : ∀ pid, ¬ (MeterEvent.tables (submitted 7).userApi fun _ ↦ none).Makes
      (submitted 7) pid := fun pid hmakes ↦ hmakes.2 rfl
  have hrun := (meterRun_signed meterRun_claimed hseven).step (fun tid htid ↦ by cases htid)
    (fun pid hmakes ↦ absurd hmakes (hunmade pid)) (fun sub fault hsub ↦ by cases hsub) hremoves
  refine ⟨_, _, hrun, hcharged, ?_⟩
  unfold owed Store.keyOf
  simp

end TandemAio
