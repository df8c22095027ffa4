import TandemAio.Moves

/-!
# What requests do

Every request ends, and its answer and its effect are related as its handler says.  From the
outcome of a request follow the moves it makes, and from these the steps of a run.
-/

open Reasoning Reasoning.Prog

namespace TandemAio

/-- An answer that grants nothing. -/
def Response.refusal : Response → Bool
  | .error _ _ | .serverError => true
  | _ => false

namespace Store

/-- `_require_node_auth`, as a function of the state. -/
def authenticate (s : Store) (auth : NodeAuth) : Except Response (NodeId × Node) :=
  match auth.nodeId with
  | none => .error (.error 400 "Missing node_id")
  | some nodeId =>
    match auth.token with
    | none => .error (.error 401 "Missing bearer token")
    | some token =>
      match s.node nodeId with
      | none => .error (.error 404 "Unknown node_id")
      | some node =>
        if compareToken (some node.nodeToken) (some token) then .ok (nodeId, node)
        else .error (.error 403 "Invalid node token")

theorem authenticate_ok {s : Store} {auth : NodeAuth} {nodeId : NodeId} {node : Node}
    (h : s.authenticate auth = .ok (nodeId, node)) :
    auth.nodeId = some nodeId ∧ s.node nodeId = some node ∧ auth.token = some node.nodeToken := by
  rw [authenticate] at h
  cases hn : auth.nodeId with
  | none => simp only [hn, reduceCtorEq] at h
  | some n =>
    cases ht : auth.token with
    | none => simp only [hn, ht, reduceCtorEq] at h
    | some token =>
      cases hs : s.node n with
      | none => simp only [hn, ht, hs, reduceCtorEq] at h
      | some node' =>
        simp only [hn, ht, hs] at h
        split at h
        · rename_i hc
          simp only [Except.ok.injEq, Prod.mk.injEq] at h
          obtain ⟨rfl, rfl⟩ := h
          refine ⟨rfl, hs, ?_⟩
          rw [compareToken, beq_iff_eq] at hc
          rw [hc]
        · cases h

/-- The request is one of the node, with its token. -/
def Authentic (s : Store) (auth : NodeAuth) (nodeId : NodeId) : Prop :=
  ∃ node, s.authenticate auth = .ok (nodeId, node)

theorem Authentic.nodeId {s : Store} {auth : NodeAuth} {nodeId : NodeId}
    (h : s.Authentic auth nodeId) : auth.nodeId = some nodeId := by
  obtain ⟨node, ha⟩ := h
  exact (authenticate_ok ha).1

theorem authenticate_error {s : Store} {auth : NodeAuth} {r : Response}
    (h : s.authenticate auth = .error r) : r.refusal = true := by
  rw [authenticate] at h
  split at h
  · cases h; rfl
  · split at h
    · cases h; rfl
    · split at h
      · cases h; rfl
      · split at h
        · cases h
        · cases h; rfl

/-- The state after the charge for a receipt; `none` when charging raises. -/
def chargeFor (s : Store) (pid : Pid) (receipt : Receipt) : Option Store :=
  match (s.deployment pid).bind (·.apiKey) with
  | none => some s
  | some apiKey =>
    (usageAmount (s.instructionsUsed apiKey) receipt.countField).map (s.charge apiKey)

end Store

@[simp] theorem wp_requireNodeAuth (s : Store) (auth : NodeAuth)
    (Q : Except Response (NodeId × Node) → Store → Prop) :
    wp (requireNodeAuth auth) Q s ↔ Q (s.authenticate auth) s := by
  rw [requireNodeAuth, Store.authenticate]
  cases auth.nodeId with
  | none => exact wp_pure _ Q s
  | some nodeId =>
    cases auth.token with
    | none => exact wp_pure _ Q s
    | some token =>
      simp only [wp_bind, Server.wp_read]
      cases s.node nodeId with
      | none => exact wp_pure _ Q s
      | some node =>
        simp only
        split <;> exact wp_pure _ Q s

/-! ## Downloads -/

/-- Who downloads a task: its node, with its token. -/
structure MayDownload (s : Store) (auth : NodeAuth) (tid : Tid) (downloadToken : Option Token)
    (nodeId : NodeId) (task : Task) (data : Blob) : Prop where
  auth : s.Authentic auth nodeId
  stored : s.task tid = some task
  assigned : task.assignedNode = some nodeId
  token : ∃ token, task.downloadToken = some token ∧ downloadToken = some token
  file : s.file task.blobPath = some data

def Store.dekHeaders (s : Store) (tid : Tid) : Option DekHeaders :=
  (s.taskEncryptionKey tid).map fun row ↦ ⟨row.encryptedDek, row.iv⟩

/-- The state after a download. -/
def Store.download (s : Store) (tid : Tid) : Store :=
  (s.modifyTask tid (·.start s.clock)).dropTaskKey tid

inductive Downloaded (s : Store) (auth : NodeAuth) (tid : Tid) (downloadToken : Option Token) :
    Response → Store → Prop
  | refused {r} : r.refusal = true → Downloaded s auth tid downloadToken r s
  | granted {nodeId task data} : MayDownload s auth tid downloadToken nodeId task data →
      Downloaded s auth tid downloadToken
        (.blob data (taskMimetype task) task.filename (s.dekHeaders tid)) (s.download tid)

theorem compareToken_true {expected provided : Option Token}
    (h : compareToken expected provided = true) :
    ∃ token, expected = some token ∧ provided = some token := by
  cases expected with
  | none => cases h
  | some a =>
    cases provided with
    | none => cases h
    | some b =>
      rw [compareToken, beq_iff_eq] at h
      exact ⟨a, rfl, by rw [h]⟩

theorem wp_downloadTaskBlob (s : Store) (auth : NodeAuth) (tid : Tid)
    (downloadToken : Option Token) :
    wp (downloadTaskBlob auth tid downloadToken) (Downloaded s auth tid downloadToken) s := by
  rw [downloadTaskBlob, wp_bind, wp_requireNodeAuth]
  cases ha : s.authenticate auth with
  | error r => exact (wp_pure r _ s).mpr (.refused (Store.authenticate_error ha))
  | ok p =>
    obtain ⟨nodeId, node⟩ := p
    simp only [wp_bind, Server.wp_read]
    cases ht : s.task tid with
    | none => exact (wp_pure _ _ s).mpr (.refused rfl)
    | some task =>
      by_cases hn : task.assignedNode = some nodeId
      · by_cases hc : compareToken task.downloadToken downloadToken = true
        · cases hf : s.file task.blobPath with
          | none =>
            simp only [hn, hc, hf, ne_eq, not_true_eq_false, if_false, Bool.true_eq_false,
              wp_bind, Server.wp_read, wp_pure]
            exact .refused rfl
          | some data =>
            have hmay : MayDownload s auth tid downloadToken nodeId task data :=
              ⟨⟨node, ha⟩, ht, hn, compareToken_true hc, hf⟩
            simp only [hn, hc, hf, ne_eq, not_true_eq_false, if_false, Bool.true_eq_false,
              wp_bind, Server.wp_read, Server.wp_write]
            have hgranted := Downloaded.granted hmay
            rw [Store.dekHeaders, Store.download] at hgranted
            cases hrow : s.taskEncryptionKey tid with
            | none =>
              have hkey : (s.modifyTask tid (·.start s.clock)).taskEncryptionKey tid = none := hrow
              simp only [hkey, wp_pure]
              have hdrop : (s.modifyTask tid (·.start s.clock)).dropTaskKey tid =
                  s.modifyTask tid (·.start s.clock) := by
                rw [Store.dropTaskKey, ← hkey, Function.update_eq_self]
              rw [hrow, hdrop] at hgranted
              exact hgranted
            | some row =>
              have hkey : (s.modifyTask tid (·.start s.clock)).taskEncryptionKey tid = some row :=
                hrow
              simp only [hkey, wp_bind, Server.wp_write, wp_pure]
              rw [hrow] at hgranted
              exact hgranted
        · simp only [hn, hc, ne_eq, not_true_eq_false, if_false, if_true, wp_pure]
          exact .refused rfl
      · simp only [hn, ne_eq, not_false_eq_true, if_true, wp_pure]
        exact .refused rfl

/-! ## Submissions -/

/-- Who submits for a task: its node, with its token. -/
structure MaySubmit (s : Store) (auth : NodeAuth) (tid : Tid) (claimToken : Option Token)
    (nodeId : NodeId) (task : Task) : Prop where
  auth : s.Authentic auth nodeId
  stored : s.task tid = some task
  assigned : task.assignedNode = some nodeId
  token : ∃ token, task.claimToken = some token ∧ claimToken = some token

/-- The reason for which a submission of a node is rejected as a bad receipt, if it is. -/
def Store.rejection [Sha256] (s : Store) (nodeId : NodeId) : ResultBody → Option String
  | .octetStream resultBytes (.object receipt) =>
    match receiptVerdict (s.nodePublicKey nodeId) receipt resultBytes nodeId with
    | .rejected reason => some reason
    | _ => none
  | .octetStream _ .noObject =>
    match s.nodePublicKey nodeId with
    | none => some ("No registered public key for node " ++ nodeId.text)
    | some _ => none
  | _ => none

/-- Whether a submission ends in the branch for bad receipts. -/
def Store.rejects [Sha256] (s : Store) (auth : NodeAuth) (tid : Tid) (claimToken : Option Token)
    (body : ResultBody) : Prop :=
  ∃ nodeId task reason, MaySubmit s auth tid claimToken nodeId task ∧
    s.rejection nodeId body = some reason

/-- Whether a submission ends its task: it reports a failure, or its receipt verifies and the
charge for it does not raise. -/
def Store.accepts [Sha256] (s : Store) (auth : NodeAuth) (tid : Tid) (claimToken : Option Token)
    (body : ResultBody) : Prop :=
  ∃ nodeId task, MaySubmit s auth tid claimToken nodeId task ∧ match body with
    | .failure _ => True
    | .octetStream resultBytes (.object receipt) =>
      receiptVerdict (s.nodePublicKey nodeId) receipt resultBytes nodeId = .verified ∧
        s.chargeFor task.pid receipt ≠ none
    | _ => False

inductive Submitted [Sha256] (s : Store) (auth : NodeAuth) (tid : Tid)
    (claimToken : Option Token) : ResultBody → Response → Store → Prop
  | refused {body r} : r.refusal = true → Submitted s auth tid claimToken body r s
  | rejected {nodeId task body reason} : MaySubmit s auth tid claimToken nodeId task →
      s.rejection nodeId body = some reason →
      Submitted s auth tid claimToken body
        (.error 403 ("Receipt verification failed: " ++ reason)) (s.reject nodeId tid task.runtime)
  | completed {nodeId task resultBytes receipt s₁ s₂} :
      MaySubmit s auth tid claimToken nodeId task →
      receiptVerdict (s.nodePublicKey nodeId) receipt resultBytes nodeId = .verified →
      s.chargeFor task.pid receipt = some s₁ → s₂ = s₁.complete tid nodeId task resultBytes →
      Submitted s auth tid claimToken (.octetStream resultBytes (.object receipt))
        (.result .completed (s₂.jobSummary task.jobId).status (s₂.jobSummary task.jobId).counts)
        (s₂.refresh task.jobId)
  | failed {nodeId task error s₂} : MaySubmit s auth tid claimToken nodeId task →
      s₂ = s.fail tid nodeId task (failureMessage error) →
      Submitted s auth tid claimToken (.failure error)
        (.result .failed (s₂.jobSummary task.jobId).status (s₂.jobSummary task.jobId).counts)
        (s₂.refresh task.jobId)

theorem wp_rejectReceipt {s : Store} {tid : Tid} {task : Task} (ht : s.task tid = some task)
    (nodeId : NodeId) (reason : String) (Q : Response → Store → Prop) :
    wp (rejectReceipt tid nodeId reason) Q s ↔
      Q (.error 403 ("Receipt verification failed: " ++ reason))
        (s.reject nodeId tid task.runtime) := by
  rw [rejectReceipt, wp_bind, Server.wp_incrBadReceipts, Store.reject, Store.strike]
  by_cases hb : badReceiptThreshold ≤ s.badReceipts nodeId + 1
  · simp only [hb, if_true, wp_bind, Server.wp_write, wp_requeueTask, Store.removeMember_task,
      Store.bumpBadReceipts_task, ht, wp_pure]
    rfl
  · simp only [hb, if_false, wp_bind, wp_requeueTask, Store.bumpBadReceipts_task, ht, wp_pure]
    rfl

@[simp] theorem wp_recordUsage (s : Store) (apiKey : ApiKey) (count : Json)
    (Q : Bool → Store → Prop) :
    wp (recordUsage apiKey count) Q s ↔ match usageAmount (s.instructionsUsed apiKey) count with
      | none => Q false s
      | some amount => Q true (s.charge apiKey amount) := by
  rw [recordUsage, wp_bind, Server.wp_read]
  cases usageAmount (s.instructionsUsed apiKey) count with
  | none => exact wp_pure _ Q s
  | some amount => simp only [wp_bind, Server.wp_write, wp_pure]

theorem wp_chargeUsage (s : Store) (pid : Pid) (receipt : Receipt) (Q : Bool → Store → Prop) :
    wp (chargeUsage pid receipt) Q s ↔ match s.chargeFor pid receipt with
      | none => Q false s
      | some s₁ => Q true s₁ := by
  rw [chargeUsage, wp_bind, Server.wp_read, Store.chargeFor]
  cases s.deployment pid with
  | none => exact wp_pure _ Q s
  | some deployment =>
    cases ha : deployment.apiKey with
    | none => simp only [ha, wp_pure, Option.bind_some]
    | some apiKey =>
      simp only [ha, wp_recordUsage, Option.bind_some]
      cases usageAmount (s.instructionsUsed apiKey) receipt.countField <;> rfl

theorem Store.chargeFor_eq {s s₁ : Store} {pid : Pid} {receipt : Receipt}
    (h : s.chargeFor pid receipt = some s₁) :
    s₁ = s ∨ ∃ apiKey amount, s₁ = s.charge apiKey amount := by
  rw [chargeFor] at h
  split at h
  · cases h
    exact .inl rfl
  · obtain ⟨amount, -, rfl⟩ := Option.map_eq_some_iff.mp h
    exact .inr ⟨_, amount, rfl⟩

theorem wp_submitBody [Sha256] {s : Store} {auth : NodeAuth} {tid : Tid}
    {claimToken : Option Token} {nodeId : NodeId} {task : Task}
    (hmay : MaySubmit s auth tid claimToken nodeId task) (body : ResultBody) :
    wp (submitBody tid nodeId task body) (Submitted s auth tid claimToken body) s := by
  have ht := hmay.stored
  cases body with
  | failure error =>
    simp only [submitBody, wp_bind, wp_failTask, ht, wp_pure, resultResponse]
    exact .failed hmay rfl
  | malformed => exact (wp_pure _ _ s).mpr (.refused rfl)
  | octetStream resultBytes header =>
    cases header with
    | missing => exact (wp_pure _ _ s).mpr (.refused rfl)
    | undecodable => exact (wp_pure _ _ s).mpr (.refused rfl)
    | noObject =>
      simp only [submitBody, wp_bind, Server.wp_read]
      cases hk : s.nodePublicKey nodeId with
      | none =>
        simp only [wp_rejectReceipt ht]
        exact .rejected hmay (by simp only [Store.rejection, hk])
      | some key => exact (wp_pure _ _ s).mpr (.refused rfl)
    | object receipt =>
      simp only [submitBody, wp_bind, Server.wp_read]
      cases hv : receiptVerdict (s.nodePublicKey nodeId) receipt resultBytes nodeId with
      | raised => exact (wp_pure _ _ s).mpr (.refused rfl)
      | rejected reason =>
        simp only [wp_rejectReceipt ht]
        exact .rejected hmay (by simp only [Store.rejection, hv])
      | verified =>
        simp only [acceptResult, wp_bind, wp_chargeUsage]
        cases hcharge : s.chargeFor task.pid receipt with
        | none =>
          simp only [Bool.false_eq_true, if_false, wp_pure]
          exact .refused rfl
        | some s₁ =>
          have ht₁ : s₁.task tid = some task := by
            rcases Store.chargeFor_eq hcharge with rfl | ⟨apiKey, amount, rfl⟩ <;> exact ht
          simp only [if_true, wp_bind, wp_completeTask, ht₁, wp_pure, resultResponse]
          exact .completed hmay hv hcharge rfl

theorem wp_submitTaskResult [Sha256] (s : Store) (auth : NodeAuth) (tid : Tid)
    (claimToken : Option Token) (body : ResultBody) :
    wp (submitTaskResult auth tid claimToken body) (Submitted s auth tid claimToken body) s := by
  rw [submitTaskResult, wp_bind, wp_requireNodeAuth]
  cases ha : s.authenticate auth with
  | error r => exact (wp_pure r _ s).mpr (.refused (Store.authenticate_error ha))
  | ok p =>
    obtain ⟨nodeId, node⟩ := p
    simp only [wp_bind, Server.wp_read]
    cases ht : s.task tid with
    | none => exact (wp_pure _ _ s).mpr (.refused rfl)
    | some task =>
      by_cases hn : task.assignedNode = some nodeId
      · by_cases hc : compareToken task.claimToken claimToken = true
        · simp only [hn, hc, ne_eq, not_true_eq_false, if_false, Bool.true_eq_false]
          exact wp_submitBody ⟨⟨node, ha⟩, ht, hn, compareToken_true hc⟩ body
        · simp only [hn, hc, ne_eq, not_true_eq_false, if_false, if_true, wp_pure]
          exact .refused rfl
      · simp only [hn, ne_eq, not_false_eq_true, if_true, wp_pure]
        exact .refused rfl

/-- A submission in the branch for bad receipts. -/
theorem wp_submitTaskResult_rejected [Sha256] {s : Store} {auth : NodeAuth} {tid : Tid}
    {claimToken : Option Token} {nodeId : NodeId} {task : Task} {body : ResultBody}
    {reason : String} (hmay : MaySubmit s auth tid claimToken nodeId task)
    (hr : s.rejection nodeId body = some reason) (Q : Response → Store → Prop) :
    wp (submitTaskResult auth tid claimToken body) Q s ↔
      Q (.error 403 ("Receipt verification failed: " ++ reason))
        (s.reject nodeId tid task.runtime) := by
  obtain ⟨node, ha⟩ := hmay.auth
  obtain ⟨token, hc, hc'⟩ := hmay.token
  have hcompare : compareToken task.claimToken claimToken = true := by
    rw [hc, hc', compareToken, beq_self_eq_true]
  simp only [submitTaskResult, wp_bind, wp_requireNodeAuth, ha, Server.wp_read, hmay.stored,
    hmay.assigned, hcompare, ne_eq, not_true_eq_false, if_false, Bool.true_eq_false]
  unfold Store.rejection at hr
  split at hr
  · simp only [submitBody, wp_bind, Server.wp_read]
    split at hr
    · rename_i hv
      simp only [hv, wp_rejectReceipt hmay.stored, Option.some.inj hr]
    · cases hr
  · split at hr
    · rename_i hk
      simp only [submitBody, wp_bind, Server.wp_read, hk, wp_rejectReceipt hmay.stored,
        Option.some.inj hr]
    · cases hr
  · cases hr

/-! ## The moves of a request -/

/-- The task a claim answers with. -/
def Response.claimedTid : Response → Option Tid
  | .claimed task => some task.tid
  | _ => none

def Response.ended : Response → Option TaskStatus
  | .result status _ _ => some status
  | _ => none

/-- The moves an action may make, from a state in which it starts and with its answer. -/
def Action.may [Sha256] (s : Store) (r : Response) : Action → Label → Prop
  | .register a, l => l = .register a ∨ ∃ key, a.pem = .key key ∧ l = .publicKey a.nodeId key
  | .createJob a, l => l = .createJob a
  | .createTask a, l => l = .createTask a
  | .claim auth claimToken downloadToken, l =>
    ∃ nodeId, s.Authentic auth nodeId ∧ l.ofClaim nodeId claimToken downloadToken r.claimedTid
  | .download auth tid _, l => ∃ nodeId, s.Authentic auth nodeId ∧
    r.refusal = false ∧ (l = .start nodeId tid ∨ l = .unwrap tid)
  | .result auth tid claimToken body, l => ∃ nodeId, s.Authentic auth nodeId ∧
    ((l = .reject nodeId tid ∧ r.refusal = true ∧ s.rejects auth tid claimToken body) ∨
      (r.ended ≠ none ∧ ((∃ apiKey amount, l = .charge apiKey amount) ∨
        ∃ task, s.task tid = some task ∧ l = .refresh task.jobId)) ∨
      (r.ended = some .completed ∧ ∃ resultBytes, l = .complete nodeId tid resultBytes) ∨
      r.ended = some .failed ∧ l = .fail nodeId tid)
  | .health auth, l =>
    ∃ nodeId, s.Authentic auth nodeId ∧ (l = .heartbeat nodeId ∨ ∃ tid, l = .lease tid)
  | .availableNodes _, l => l.stale
  | .sweep, l => l.stale ∨ l.drain
  | .refreshJob jobId, l => l = .refresh jobId
  | .tick now, l => l = .tick now
  | .expireTask tid, l => l = .expire tid

/-- The ids an action draws are new to a state. -/
def Action.NewTo (s : Store) : Action → Prop
  | .register a => s.UnusedNode a.nodeId
  | .createJob a => s.job a.jobId = none
  | .createTask a => s.UnusedTask a.tid
  | _ => True

section Handlers

variable [Sha256] {s s' : Store} {r : Response}

theorem Downloaded.via {auth : NodeAuth} {tid : Tid} {downloadToken : Option Token}
    (h : Downloaded s auth tid downloadToken r s') :
    Via ((Action.download auth tid downloadToken).may s r) s s' := by
  cases h with
  | refused => exact .refl _ s
  | @granted nodeId task data hmay =>
    obtain ⟨node, ha⟩ := hmay.auth
    obtain ⟨token, htoken, -⟩ := hmay.token
    obtain ⟨-, hn, -⟩ := Store.authenticate_ok ha
    have hstart := Move.start hn hmay.stored hmay.assigned htoken hmay.file
    exact (Via.single hstart ⟨nodeId, hmay.auth, rfl, .inl rfl⟩).trans
      (.single (.unwrap tid) ⟨nodeId, hmay.auth, rfl, .inr rfl⟩)

theorem Submitted.via {auth : NodeAuth} {tid : Tid} {claimToken : Option Token} {body : ResultBody}
    (h : Submitted s auth tid claimToken body r s') :
    Via ((Action.result auth tid claimToken body).may s r) s s' := by
  cases h with
  | refused => exact .refl _ s
  | @rejected nodeId task _ reason hmay hr =>
    obtain ⟨node, ha⟩ := hmay.auth
    obtain ⟨token, htoken, -⟩ := hmay.token
    obtain ⟨-, hn, -⟩ := Store.authenticate_ok ha
    exact .single (.reject hn hmay.stored hmay.assigned htoken)
      ⟨nodeId, hmay.auth, .inl ⟨rfl, rfl, nodeId, task, reason, hmay, hr⟩⟩
  | @completed nodeId task resultBytes receipt s₁ s₂ hmay hv hc he =>
    obtain ⟨node, ha⟩ := hmay.auth
    obtain ⟨token, htoken, -⟩ := hmay.token
    obtain ⟨-, hn, -⟩ := Store.authenticate_ok ha
    have hend (s₀ : Store) (hn : s₀.node nodeId = some node) (ht : s₀.task tid = some task) :
        Via ((Action.result auth tid claimToken (.octetStream resultBytes (.object receipt))).may s
          (.result .completed (s₂.jobSummary task.jobId).status (s₂.jobSummary task.jobId).counts))
          s₀ ((s₀.complete tid nodeId task resultBytes).refresh task.jobId) :=
      (Via.single (.complete resultBytes hn ht hmay.assigned htoken)
        ⟨nodeId, hmay.auth, .inr (.inr (.inl ⟨rfl, resultBytes, rfl⟩))⟩).trans
        (.single (.refresh task.jobId)
          ⟨nodeId, hmay.auth, .inr (.inl ⟨by simp [Response.ended], .inr ⟨task, hmay.stored, rfl⟩⟩)⟩)
    rcases Store.chargeFor_eq hc with rfl | ⟨apiKey, amount, rfl⟩
    · exact he ▸ hend s₁ hn hmay.stored
    · refine (Via.single (.charge apiKey amount) ⟨nodeId, hmay.auth, .inr (.inl ?_)⟩).trans
        (he ▸ hend (s.charge apiKey amount) hn hmay.stored)
      exact ⟨by simp [Response.ended], .inl ⟨apiKey, amount, rfl⟩⟩
  | @failed nodeId task error s₂ hmay he =>
    obtain ⟨node, ha⟩ := hmay.auth
    obtain ⟨token, htoken, -⟩ := hmay.token
    obtain ⟨-, hn, -⟩ := Store.authenticate_ok ha
    refine (Via.single (.fail (failureMessage error) hn hmay.stored hmay.assigned htoken)
      ⟨nodeId, hmay.auth, .inr (.inr (.inr ⟨rfl, rfl⟩))⟩).trans ?_
    refine he ▸ .single (.refresh task.jobId) ⟨nodeId, hmay.auth, .inr (.inl ?_)⟩
    exact ⟨by simp [Response.ended], .inr ⟨task, hmay.stored, rfl⟩⟩

theorem wp_health (s : Store) (auth : NodeAuth) :
    wp (health auth) (fun r s' ↦ Via ((Action.health auth).may s r) s s') s := by
  rw [health, wp_bind, wp_requireNodeAuth]
  cases ha : s.authenticate auth with
  | error r => exact (wp_pure r _ s).mpr (.refl _ s)
  | ok p =>
    obtain ⟨nodeId, node⟩ := p
    obtain ⟨-, hn, -⟩ := Store.authenticate_ok ha
    have hbeat : Via ((Action.health auth).may s .alive) s
        ((s.modifyNode nodeId fun node ↦ { node with lastSeen := s.clock }).addMember nodeId) :=
      .single (.heartbeat hn) ⟨nodeId, ⟨node, ha⟩, .inl rfl⟩
    simp only [wp_bind, Server.wp_read, Server.wp_write, wp_extendTaskLease]
    split
    · exact (wp_pure _ _ _).mpr hbeat
    · rename_i tid hc
      split
      · rename_i hl
        refine (wp_pure _ _ _).mpr (hbeat.trans ?_)
        cases ht : s.task tid with
        | none =>
          rw [Store.addMember_task, Store.modifyNode_task, ht] at hl
          cases hl
        | some task =>
          rw [Store.addMember_task, Store.modifyNode_task, ht] at hl
          exact .single (.lease ht hl) ⟨nodeId, ⟨node, ha⟩, .inr ⟨tid, rfl⟩⟩
      · exact (wp_pure _ _ _).mpr hbeat

omit [Sha256] in
theorem wp_resolveRegistrationIdentity (s : Store) (provided : Option Token) :
    wp (resolveRegistrationIdentity provided) (fun o s' ↦ s' = s ∧
      ∀ r, o = .error r → r.refusal = true) s := by
  rw [resolveRegistrationIdentity, wp_bind, Server.wp_read]
  cases provided.bind s.userApi with
  | some userId => exact (wp_pure _ _ s).mpr ⟨rfl, fun r h ↦ by cases h⟩
  | none =>
    simp only [wp_bind, Server.wp_read]
    cases s.nodeRegistrationToken with
    | none => exact (wp_pure _ _ s).mpr ⟨rfl, fun r h ↦ by cases h⟩
    | some expected =>
      cases provided with
      | none => exact (wp_pure _ _ s).mpr ⟨rfl, fun r h ↦ by cases h; rfl⟩
      | some provided =>
        simp only
        split
        · exact (wp_pure _ _ s).mpr ⟨rfl, fun r h ↦ by cases h⟩
        · exact (wp_pure _ _ s).mpr ⟨rfl, fun r h ↦ by cases h; rfl⟩

theorem wp_register (s : Store) (a : Register) (hnew : s.UnusedNode a.nodeId) :
    wp (register a) (fun r s' ↦ Via ((Action.register a).may s r) s s') s := by
  rw [register, wp_bind]
  refine (wp_resolveRegistrationIdentity s a.bearer).mono fun o s₁ h₁ ↦ ?_
  obtain ⟨rfl, -⟩ := h₁
  cases o with
  | error r => exact (wp_pure r _ _).mpr (.refl _ _)
  | ok owner =>
    have hreg (r : Response) : Via ((Action.register a).may s₁ r) s₁
        ((s₁.putNode a.nodeId (a.node owner s₁.clock)).addMember a.nodeId) :=
      .single (.register a owner hnew) (.inl rfl)
    simp only [wp_bind, Server.wp_read, Server.wp_write]
    cases hp : a.pem with
    | absent | invalid | notText => exact (wp_pure _ _ _).mpr (hreg _)
    | key key =>
      simp only [wp_bind, Server.wp_write, wp_pure]
      have hnode : ((s₁.putNode a.nodeId (a.node owner s₁.clock)).addMember a.nodeId).node
          a.nodeId = some (a.node owner s₁.clock) := by
        rw [Store.addMember_node, Store.putNode_node, Function.update_self]
      exact (hreg _).trans (.single (.publicKey key hnode hnew.publicKey) (.inr ⟨key, hp, rfl⟩))

/-- What a claim answers is what `claim_task_for_node` returns. -/
structure ClaimAnswered (s : Store) (nodeId : NodeId) (claimToken downloadToken : Token)
    (r : Response) (s' : Store) : Prop where
  via : Via (Label.ofClaim nodeId claimToken downloadToken r.claimedTid) s s'
  answers : ∀ answer, r = .claimed answer → ∃ task, s'.task answer.tid = some task ∧
    task.status.live = true ∧ answer = claimResponse answer.tid task ∧
    ∃ node, s'.node nodeId = some node ∧ node.currentTask = some answer.tid

omit [Sha256] in
theorem wp_claimTask (s : Store) (auth : NodeAuth) (claimToken downloadToken : Token) :
    wp (claimTask auth claimToken downloadToken) (fun r s' ↦
      (r.refusal = true ∧ s' = s) ∨ ∃ nodeId, s.Authentic auth nodeId ∧
        ClaimAnswered s nodeId claimToken downloadToken r s') s := by
  rw [claimTask, wp_bind, wp_requireNodeAuth]
  cases ha : s.authenticate auth with
  | error r => exact (wp_pure r _ s).mpr (.inl ⟨Store.authenticate_error ha, rfl⟩)
  | ok p =>
    obtain ⟨nodeId, node⟩ := p
    simp only [wp_bind]
    refine (wp_claimTaskForNode s nodeId claimToken downloadToken).mono fun o s₁ h₁ ↦ ?_
    cases o with
    | none => exact (wp_pure _ _ s₁).mpr (.inr ⟨nodeId, ⟨node, ha⟩, h₁.via, fun _ h ↦ by cases h⟩)
    | some p =>
      obtain ⟨tid, task⟩ := p
      obtain ⟨ht, hl, hp⟩ := h₁.answers tid task rfl
      refine (wp_pure _ _ s₁).mpr (.inr ⟨nodeId, ⟨node, ha⟩, h₁.via, fun answer h ↦ ?_⟩)
      cases h
      exact ⟨task, ht, hl, rfl, hp⟩

/-- Every action ends, and makes only its own moves. -/
theorem wp_handle (s : Store) (a : Action) (hnew : a.NewTo s) :
    wp (handle a) (fun r s' ↦ Via (a.may s r) s s') s := by
  cases a with
  | register a => exact wp_register s a hnew
  | createJob a =>
    simp only [handle, createJob, wp_bind, Server.wp_read, Server.wp_write, wp_pure]
    exact .single (.createJob a hnew) rfl
  | createTask a =>
    simp only [handle, wp_bind, wp_createTask, wp_pure]
    exact .single (.createTask a hnew) rfl
  | claim auth claimToken downloadToken =>
    refine (wp_claimTask s auth claimToken downloadToken).mono fun r s' h ↦ ?_
    rcases h with ⟨-, rfl⟩ | ⟨nodeId, hid, h⟩
    · exact .refl _ _
    · exact h.via.mono fun l hl ↦ ⟨nodeId, hid, hl⟩
  | download auth tid downloadToken =>
    exact (wp_downloadTaskBlob s auth tid downloadToken).mono fun r s' h ↦ h.via
  | result auth tid claimToken body =>
    exact (wp_submitTaskResult s auth tid claimToken body).mono fun r s' h ↦ h.via
  | health auth => exact wp_health s auth
  | availableNodes requiredRuntime =>
    simp only [handle, getAvailableNodes, wp_bind, wp_getHealthyNodeIds, wp_pure]
    exact wp_requeueStaleTasks s
  | sweep =>
    simp only [handle, wp_bind, wp_pure]
    exact wp_sweepStaleWork s
  | refreshJob jobId =>
    simp only [handle, wp_bind, wp_refreshJobStatus, wp_pure]
    exact .single (.refresh jobId) rfl
  | tick now =>
    simp only [handle, wp_bind, Server.wp_write, wp_pure]
    exact .single (.tick now) rfl
  | expireTask tid =>
    simp only [handle, wp_bind, Server.wp_write, wp_pure]
    exact .single (.expire tid) rfl

end Handlers

end TandemAio
