import Mathlib.Tactic.FinCases
import TandemAio.Durability
import TandemAio.Looks

/-!
# Calls that overlap

The requests of the server, the sweeper and the purge script, each interrupted by the others after
any command.  As long as no call acts on a task that another one has changed since the call first
looked at it, a task that has ended stays ended, no id is queued twice, and every task that has not
ended has its payload.
-/

open Reasoning Reasoning.Prog

namespace TandemAio

/-! ## What tasks do not show -/

/-- All commands of the program leave tasks as they are seen. -/
def Silent {α : Type} (p : Server α) : Prop := p.Each fun c ↦ upkeep.Quiet c

section Silent

variable {α β : Type}

theorem silent_pure (a : α) : Silent (pure a) := trivial

theorem Silent.bind {p : Server α} {f : α → Server β} (hp : Silent p) (hf : ∀ a, Silent (f a)) :
    Silent (p >>= f) := each_bind hp hf

theorem silent_read (f : Store → α) (seen : α → List Tid) : Silent (Server.read f seen) :=
  ⟨quiet_of_same Store.SameToTasks.refl, fun _ ↦ trivial⟩

theorem silent_write {g : Store → Store} (seen : List Tid) (hg : ∀ s : Store, s.SameToTasks (g s)) :
    Silent (Server.write g seen) := ⟨quiet_of_same hg, fun _ ↦ trivial⟩

theorem silent_hsetNode (nodeId : NodeId) (f : Node → Node) : Silent (Server.hsetNode nodeId f) :=
  silent_write [] fun _ ↦ ⟨rfl, rfl, fun _ _ _ ↦ rfl⟩

theorem silent_getAllNodeIds : Silent getAllNodeIds :=
  (silent_read _ _).bind fun _ ↦ silent_pure _

theorem silent_getHealthyNodeIds (exclude : Option NodeId) (requiredRuntime : Option Runtime) :
    Silent (getHealthyNodeIds exclude requiredRuntime) := by
  refine (silent_read _ _).bind fun current ↦ silent_getAllNodeIds.bind fun nodeIds ↦ ?_
  apply each_collect
  intro nodeId
  split
  · trivial
  · refine (silent_read _ _).bind fun node ↦ ?_
    split
    · trivial
    · split <;> trivial

theorem silent_requireNodeAuth (auth : NodeAuth) : Silent (requireNodeAuth auth) := by
  unfold requireNodeAuth
  split
  · trivial
  · split
    · trivial
    · refine (silent_read _ _).bind fun node ↦ ?_
      split
      · trivial
      · split <;> trivial

theorem silent_refreshJobStatus (jobId : JobId) : Silent (refreshJobStatus jobId) := by
  refine (silent_read _ _).bind fun taskIds ↦ Silent.bind ?_ fun tasks ↦
    (silent_read _ _).bind fun timestamp ↦ (silent_write [] ?_).bind fun _ ↦ silent_pure _
  · exact each_collect (fun tid ↦ (silent_read _ _).bind fun task ↦ silent_pure _) taskIds
  · exact fun s ↦ ⟨rfl, rfl, fun _ _ _ ↦ rfl⟩

theorem silent_chargeUsage (pid : Pid) (receipt : Receipt) : Silent (chargeUsage pid receipt) := by
  refine (silent_read _ _).bind fun deployment ↦ ?_
  split
  · trivial
  · split
    · trivial
    · rename_i apiKey _
      refine (silent_read _ _).bind fun amount ↦ ?_
      split
      · trivial
      · rename_i amount
        have hcharge : ∀ s : Store, s.SameToTasks (s.charge apiKey amount) :=
          fun s ↦ ⟨rfl, rfl, fun _ _ _ ↦ rfl⟩
        exact (silent_write [] hcharge).bind fun _ ↦ silent_pure _

theorem silent_resolveRegistrationIdentity (provided : Option Token) :
    Silent (resolveRegistrationIdentity provided) := by
  refine (silent_read _ _).bind fun owner ↦ ?_
  split
  · trivial
  · refine (silent_read _ _).bind fun expected ↦ ?_
    split
    · trivial
    · split
      · trivial
      · split <;> trivial

/-- A lease is not seen. -/
theorem quiet_extendLease (tid : Tid) (current : Time) : upkeep.Quiet (ρ := Unit)
    ⟨fun s ↦ ((), s.modifyTask tid (·.extendLease current)), fun _ ↦ [tid]⟩ := by
  intro s hs
  have hstep : (s.modifyTask tid (·.extendLease current)).Steady ∧
      s.Follows (s.modifyTask tid (·.extendLease current)) := by
    apply hs.modifyTask
    · intro a ha
      have hbefore := hs.task tid a ha
      exact ⟨rfl, rfl, rfl, hbefore.result, fun _ _ ↦ rfl, hbefore.tokens⟩
    · exact fun a _ hne ↦ absurd rfl hne
  obtain ⟨hsteady, hfollows⟩ := hstep
  refine ⟨hsteady, hfollows, fun x ↦ ?_⟩
  by_cases hx : x = tid
  · rw [hx]
    exact s.taskView_modifyTask_self tid (·.extendLease current)
  · exact s.taskView_modifyTask_ne _ hx

theorem silent_extendTaskLease (nodeId : NodeId) : Silent (extendTaskLease nodeId) := by
  refine (silent_read _ _).bind fun node ↦ ?_
  split
  · trivial
  · split
    · trivial
    · rename_i currentTid _
      refine (silent_read _ _).bind fun task ↦ ?_
      split
      · trivial
      · split
        · exact (silent_read _ _).bind fun current ↦
            ⟨quiet_extendLease currentTid current, fun _ ↦ trivial⟩
        · trivial

end Silent

/-! ## The queue -/

section Queue

variable {b : Belief Tid TaskView} {s : Store}

/-- Nothing more is asked of a call that has come to its end. -/
abbrev Ends {α : Type} : α → Belief Tid TaskView → Store → Prop := fun _ _ _ ↦ True

theorem stamp_requeue (tid : Tid) (a : Task) (assignedNode : Option NodeId) (timestamp : Time) :
    Stamp tid a (a.requeue assignedNode timestamp) where
  blobPath := rfl
  jobId := rfl
  filename := rfl
  result := by
    intro h
    cases h
  failed := by
    intro h
    cases h
  tokens := fun h ↦ h.elim (absurd rfl) (absurd rfl)

/-- A task that a node has is in no queue. -/
theorem Store.Steady.open_of_live (h : s.Steady) {tid : Tid} {a : Task}
    (ha : s.task tid = some a) (hlive : a.status.live = true) : (s.taskView tid).Open := by
  constructor
  · intro status path hhash
    rw [Store.hash_of_task ha] at hhash
    cases hhash
    cases hstatus : a.status <;> rw [hstatus] at hlive <;> first | rfl | cases hlive
  · intro key
    by_contra hne
    have hmem : tid ∈ s.queue key := List.count_pos_iff.mp (Nat.pos_of_ne_zero hne)
    rw [(h.task tid a ha).queued key hmem] at hlive
    cases hlive

/-- A task is put back by a call that believes it to be open. -/
theorem safe_requeueTask {tid : Tid} (assignedNode : Option NodeId)
    (hopen : ∀ w, b tid w → w.Open) : upkeep.Safe (requeueTask tid assignedNode) Ends b s := by
  apply safe_getTask
  intro b₁ s₁ hle₁ _ _ _
  split
  · trivial
  · apply safe_read
    intro b₂ s₂ hle₂ _ _
    apply safe_hsetTask (fun w hw ↦ hopen w (hle₁ tid w (hle₂ tid w hw)))
    · exact fun _ ↦ rfl
    · exact fun s' a _ _ _ ↦ stamp_requeue tid a assignedNode _
    · intro b₃ s₃ hbelief _
      apply safe_rpush
      · exact fun w hw ↦ ⟨(hbelief w hw).2, (hbelief w hw).1⟩
      · exact fun _ _ _ ↦ trivial

/-- One turn of the stale pass: the task it puts back was live when it looked. -/
theorem safe_requeueStaleNode (current : Time) (nodeId : NodeId) :
    upkeep.Safe (requeueStaleNode current nodeId) Ends b s := by
  apply safe_read
  intro b₁ s₁ _ _ _
  split
  · trivial
  · split
    · trivial
    · split
      · trivial
      · rename_i currentTid _
        apply safe_getTask
        intro b₂ s₂ _ hlook _ hsteady
        split
        · exact Contract.safe_of_each (silent_hsetNode _ _) fun _ _ _ _ _ ↦ trivial
        · rename_i task htask
          split
          · rename_i hlive
            have hopen : ∀ w, b₂ currentTid w → w.Open := by
              intro w hw
              rw [hlook w hw]
              exact hsteady.open_of_live htask hlive
            apply safe_each (silent_getHealthyNodeIds _ _)
            intro destinations b₃ s₃ hle₃ _
            apply Contract.safe_monadBind.mpr
            apply (safe_requeueTask _ fun w hw ↦ hopen w (hle₃ _ w hw)).mono
            intro _ b₄ s₄ _
            exact Contract.safe_of_each (silent_hsetNode _ _) fun _ _ _ _ _ ↦ trivial
          · exact Contract.safe_of_each (silent_hsetNode _ _) fun _ _ _ _ _ ↦ trivial

theorem safe_requeueStaleTasks : upkeep.Safe requeueStaleTasks Ends b s := by
  apply safe_read
  intro b₁ s₁ _ _ _
  apply safe_each silent_getAllNodeIds
  intro nodeIds b₂ s₂ _ _
  exact Contract.safe_forEach (fun nodeId _ _ ↦ safe_requeueStaleNode _ nodeId) nodeIds b₂ s₂

/-- One turn of the drain: the task was in a queue when it took it. -/
theorem safe_drainOne (nodeId : NodeId) : upkeep.Safe (drainOne nodeId) Ends b s := by
  apply safe_lpop
  intro o b₁ s₁ hwait _
  split
  · trivial
  · rename_i tid
    apply safe_getTask
    intro b₂ s₂ hle₂ _ _ _
    split
    · trivial
    · split
      · apply safe_each (silent_getHealthyNodeIds _ _)
        intro destinations b₃ s₃ hle₃ _
        apply Contract.safe_monadBind.mpr
        apply (safe_requeueTask _ _).mono
        · exact fun _ _ _ _ ↦ trivial
        · exact fun w hw ↦ (hwait tid rfl w (hle₂ tid w (hle₃ tid w hw))).isOpen
      · trivial

theorem safe_drainNode (current : Time) (nodeId : NodeId) :
    upkeep.Safe (drainNode current nodeId) Ends b s := by
  apply safe_read
  intro b₁ s₁ _ _ _
  split
  · trivial
  · split
    · trivial
    · apply Contract.safe_whileTrue
      exact fun b' s' ↦ (safe_drainOne nodeId).mono fun _ _ _ _ _ _ ↦ trivial

theorem safe_sweepStaleWork : upkeep.Safe sweepStaleWork Ends b s := by
  apply Contract.safe_monadBind.mpr
  apply safe_requeueStaleTasks.mono
  intro _ b₁ s₁ _
  apply safe_read
  intro b₂ s₂ _ _ _
  apply safe_each silent_getAllNodeIds
  intro nodeIds b₃ s₃ _ _
  exact Contract.safe_forEach (fun nodeId _ _ ↦ safe_drainNode _ nodeId) nodeIds b₃ s₃

/-! ### Claims -/

/-- An id that a pop ends with was in the queue when it was taken. -/
theorem safe_popQueueTid (key : QueueKey) (nodeId : NodeId) (allowUnassigned : Bool) :
    upkeep.Safe (popQueueTid key nodeId allowUnassigned)
      (fun o b' _ ↦ ∀ tid ∈ o, ∀ w, b' tid w → w.Waiting) b s := by
  apply Contract.safe_whileTrue
  intro b' s'
  apply safe_lpop
  intro o b₁ s₁ hwait _
  split
  · intro o' ho' tid htid
    cases ho'
    cases htid
  · rename_i tid
    apply safe_getTask
    intro b₂ s₂ hle₂ _ _ _
    split
    · intro o' ho'
      cases ho'
    · split
      · intro o' ho' x hx w hw
        cases ho'
        cases hx
        exact hwait tid rfl w (hle₂ tid w hw)
      · intro o' ho'
        cases ho'

theorem stamp_claim (tid : Tid) (a : Task) (nodeId : NodeId) (claimToken downloadToken : Token)
    (current : Time) : Stamp tid a (a.claim nodeId claimToken downloadToken current) where
  blobPath := rfl
  jobId := rfl
  filename := rfl
  result := by
    intro h
    cases h
  failed := by
    intro h
    cases h
  tokens := fun _ ↦ rfl

/-- A task taken from a queue is claimed, or put back. -/
theorem safe_claimPopped {tid : Tid} (nodeId : NodeId) (node : Node)
    (claimToken downloadToken : Token) (hwait : ∀ w, b tid w → w.Waiting) :
    upkeep.Safe (claimPopped nodeId node tid claimToken downloadToken) Ends b s := by
  apply safe_getTask
  intro b₁ s₁ hle₁ _ _ _
  split
  · trivial
  · split
    · apply safe_read
      intro b₂ s₂ hle₂ _ _
      apply safe_hsetTask (fun w hw ↦ (hwait w (hle₁ tid w (hle₂ tid w hw))).isOpen)
      · exact fun _ ↦ rfl
      · exact fun s' a _ _ _ ↦ stamp_claim tid a nodeId claimToken downloadToken _
      · intro b₃ s₃ _ _
        apply safe_each (silent_hsetNode _ _)
        intro _ b₄ s₄ _ _
        apply safe_getTask
        intro b₅ s₅ _ _ _ _
        split <;> trivial
    · apply Contract.safe_monadBind.mpr
      apply (safe_requeueTask none fun w hw ↦ (hwait w (hle₁ tid w hw)).isOpen).mono
      exact fun _ _ _ _ ↦ trivial

theorem safe_claimFromQueues (nodeId : NodeId) (node : Node) (claimToken downloadToken : Token) :
    upkeep.Safe (claimFromQueues nodeId node claimToken downloadToken) Ends b s := by
  apply Contract.safe_monadBind.mpr
  apply (safe_popQueueTid (.node nodeId) nodeId false).mono
  intro own b₁ s₁ hown
  cases own with
  | some tid => exact safe_claimPopped nodeId node claimToken downloadToken (hown tid rfl)
  | none =>
    apply Contract.safe_monadBind.mpr
    apply (Contract.safe_firstSome _ _ b₁ s₁).mono
    · intro o b₂ s₂ hwait
      cases o with
      | none => trivial
      | some tid => exact safe_claimPopped nodeId node claimToken downloadToken (hwait tid rfl)
    · exact fun runtime b₂ s₂ ↦ safe_popQueueTid _ nodeId true

theorem safe_claimTaskForNode (nodeId : NodeId) (claimToken downloadToken : Token) :
    upkeep.Safe (claimTaskForNode nodeId claimToken downloadToken) Ends b s := by
  apply Contract.safe_monadBind.mpr
  apply safe_requeueStaleTasks.mono
  intro _ b₁ s₁ _
  apply safe_read
  intro b₂ s₂ _ _ _
  split
  · trivial
  · split
    · exact safe_claimFromQueues nodeId _ claimToken downloadToken
    · apply safe_getTask
      intro b₃ s₃ _ _ _ _
      split
      · split
        · trivial
        · apply safe_each (silent_hsetNode _ _)
          exact fun _ _ _ _ _ ↦ safe_claimFromQueues nodeId _ claimToken downloadToken
      · apply safe_each (silent_hsetNode _ _)
        exact fun _ _ _ _ _ ↦ safe_claimFromQueues nodeId _ claimToken downloadToken

theorem safe_claimTask (auth : NodeAuth) (claimToken downloadToken : Token) :
    upkeep.Safe (claimTask auth claimToken downloadToken) Ends b s := by
  apply safe_each (silent_requireNodeAuth auth)
  intro answer b₁ s₁ _ _
  split
  · trivial
  · apply Contract.safe_monadBind.mpr
    apply (safe_claimTaskForNode _ claimToken downloadToken).mono
    intro o b₂ s₂ _
    split <;> trivial

end Queue

/-! ## Downloads and results -/

section Ends

variable {b : Belief Tid TaskView} {s : Store} {tid : Tid} {task : Task}

theorem some_of_compareToken {expected provided : Option Token}
    (h : compareToken expected provided ≠ false) : expected ≠ none := by
  rintro rfl
  exact h rfl

theorem stamp_start (tid : Tid) (a : Task) (timestamp : Time) :
    Stamp tid a (a.start timestamp) where
  blobPath := rfl
  jobId := rfl
  filename := rfl
  result := by
    intro h
    cases h
  failed := by
    intro h
    cases h
  tokens := fun _ ↦ rfl

/-- A task is started by a call that has found a download token in it. -/
theorem safe_downloadTaskBlob (auth : NodeAuth) (tid : Tid) (downloadToken : Option Token) :
    upkeep.Safe (downloadTaskBlob auth tid downloadToken) Ends b s := by
  apply safe_each (silent_requireNodeAuth auth)
  intro answer b₁ s₁ _ _
  split
  · trivial
  · apply safe_getTask
    intro b₂ s₂ _ hlook _ hsteady
    split
    · trivial
    · rename_i task htask
      split
      · trivial
      · split
        · trivial
        · rename_i htoken
          have hlive : task.status.live = true :=
            (hsteady.task tid task htask).tokens (Or.inr (some_of_compareToken htoken))
          apply safe_read
          intro b₃ s₃ hle₃ _ _
          split
          · trivial
          · apply safe_read
            intro b₄ s₄ hle₄ _ _
            apply safe_hsetTask
            · intro w hw
              rw [hlook w (hle₃ tid w (hle₄ tid w hw))]
              exact hsteady.open_of_live htask hlive
            · exact fun _ ↦ rfl
            · exact fun s' a _ _ _ ↦ stamp_start tid a _
            · intro b₅ s₅ _ _
              apply safe_read
              intro b₆ s₆ _ _ _
              split
              · trivial
              · have hkey (s' : Store) : s'.SameToTasks (s'.dropTaskKey tid) :=
                  ⟨rfl, rfl, fun _ _ _ ↦ rfl⟩
                apply safe_write hkey
                exact fun _ _ _ _ ↦ trivial

theorem stamp_complete {a : Task} (hjob : a.jobId = task.jobId) (timestamp : Time) :
    Stamp tid a (a.complete (.result task.jobId tid) timestamp) where
  blobPath := rfl
  jobId := rfl
  filename := rfl
  result := by
    intro _
    rw [hjob]
    rfl
  failed := by
    intro h
    cases h
  tokens := fun h ↦ h.elim (absurd rfl) (absurd rfl)

theorem stamp_fail (tid : Tid) (a : Task) (errorMessage : String) (timestamp : Time) :
    Stamp tid a (a.fail errorMessage timestamp) where
  blobPath := rfl
  jobId := rfl
  filename := rfl
  result := by
    intro h
    cases h
  failed := fun _ _ ↦ rfl
  tokens := fun h ↦ h.elim (absurd rfl) (absurd rfl)

/-- The way both ends of a task go on once its hash is written: the payload is removed. -/
theorem safe_endTask {status : TaskStatus} {nodeId : NodeId} {timestamp : Time}
    (hfinished : status.finished = true)
    (hblob : task.blobPath = .task task.jobId tid task.filename)
    (hwritten : ∀ w, b tid w → ∀ status' path, w.hash = some (status', path) → status' = status) :
    upkeep.Safe (do
      Server.hsetNode nodeId (·.endTask timestamp)
      Server.write (·.dropFile task.blobPath) []
      let summary ← refreshJobStatus task.jobId
      return some summary) Ends b s := by
  apply safe_each (silent_hsetNode _ _)
  intro _ b₁ s₁ hle₁ _
  apply safe_dropFile
  · intro jobId x filename hpath w hw status' path hhash
    rw [hblob] at hpath
    cases hpath
    rw [hwritten w (hle₁ tid w hw) status' path hhash]
    exact hfinished
  · intro b₂ s₂ _
    apply safe_each (silent_refreshJobStatus _)
    exact fun _ _ _ _ _ ↦ trivial

/-- A task is completed by a call that believes it to be open. -/
theorem safe_completeTask (nodeId : NodeId) (resultBytes : List UInt8)
    (hopen : ∀ w, b tid w → w.Open) :
    upkeep.Safe (completeTask tid nodeId resultBytes) Ends b s := by
  apply safe_getTask
  intro b₁ s₁ hle₁ _ _ hsteady
  split
  · trivial
  · rename_i task htask
    have hbefore := hsteady.task tid task htask
    have hresult (s' : Store) :
        s'.SameToTasks (s'.putFile (.result task.jobId tid) (.bytes resultBytes)) := by
      refine ⟨rfl, rfl, fun jobId' tid' filename ↦ ?_⟩
      rw [Store.putFile_file, Function.update_of_ne (by intro h; cases h)]
    apply safe_write hresult
    intro b₂ s₂ hle₂ hfollows₂
    apply safe_read
    intro b₃ s₃ hle₃ hfollows₃ _
    apply safe_hsetTask
    · exact fun w hw ↦ hopen w (hle₁ tid w (hle₂ tid w (hle₃ tid w hw)))
    · exact fun _ ↦ rfl
    · intro s' a hfollows hs ha
      obtain ⟨a', ha', hblob, _⟩ := (hfollows₂.trans (hfollows₃.trans hfollows)) tid task htask
      rw [ha] at ha'
      cases ha'
      exact stamp_complete (hbefore.jobId_eq (hs.task tid a ha) hblob) _
    · exact fun b₄ s₄ hwritten _ ↦ safe_endTask rfl hbefore.blob fun w hw ↦ (hwritten w hw).2

/-- A task is failed by a call that believes it to be open. -/
theorem safe_failTask (nodeId : NodeId) (errorMessage : String) (hopen : ∀ w, b tid w → w.Open) :
    upkeep.Safe (failTask tid nodeId errorMessage) Ends b s := by
  apply safe_getTask
  intro b₁ s₁ hle₁ _ _ hsteady
  split
  · trivial
  · rename_i task htask
    apply safe_read
    intro b₂ s₂ hle₂ _ _
    apply safe_hsetTask (fun w hw ↦ hopen w (hle₁ tid w (hle₂ tid w hw)))
    · exact fun _ ↦ rfl
    · exact fun s' a _ _ _ ↦ stamp_fail tid a errorMessage _
    · exact fun b₄ s₄ hwritten _ ↦
        safe_endTask rfl (hsteady.task tid task htask).blob fun w hw ↦ (hwritten w hw).2

theorem silent_incrBadReceipts (nodeId : NodeId) : Silent (Server.incrBadReceipts nodeId) :=
  ⟨quiet_of_same fun _ ↦ ⟨rfl, rfl, fun _ _ _ ↦ rfl⟩, fun _ ↦ trivial⟩

theorem silent_sremNodes (nodeId : NodeId) : Silent (Server.sremNodes nodeId) :=
  silent_write [] fun _ ↦ ⟨rfl, rfl, fun _ _ _ ↦ rfl⟩

theorem safe_rejectReceipt (nodeId : NodeId) (reason : String) (hopen : ∀ w, b tid w → w.Open) :
    upkeep.Safe (rejectReceipt tid nodeId reason) Ends b s := by
  have hend {b' : Belief Tid TaskView} {s' : Store} (hle : ∀ x w, b' x w → b x w) :
      upkeep.Safe (do
        requeueTask tid none
        return Response.error 403 ("Receipt verification failed: " ++ reason)) Ends b' s' := by
    apply Contract.safe_monadBind.mpr
    apply (safe_requeueTask none fun w hw ↦ hopen w (hle tid w hw)).mono
    exact fun _ _ _ _ ↦ trivial
  apply safe_each (silent_incrBadReceipts nodeId)
  intro badCount b₁ s₁ hle₁ _
  split
  · apply safe_each (silent_sremNodes nodeId)
    exact fun _ b₂ s₂ hle₂ _ ↦ hend fun x w hw ↦ hle₁ x w (hle₂ x w hw)
  · exact hend hle₁

theorem safe_submitBody [Sha256] (nodeId : NodeId) (task : Task) (body : ResultBody)
    (hopen : ∀ w, b tid w → w.Open) : upkeep.Safe (submitBody tid nodeId task body) Ends b s := by
  cases body with
  | octetStream resultBytes header =>
    cases header with
    | missing => trivial
    | undecodable => trivial
    | noObject =>
      apply safe_read
      intro b₁ s₁ hle₁ _ _
      split
      · exact safe_rejectReceipt nodeId _ fun w hw ↦ hopen w (hle₁ tid w hw)
      · trivial
    | object receipt =>
      apply safe_read
      intro b₁ s₁ hle₁ _ _
      split
      · apply safe_each (silent_chargeUsage task.pid receipt)
        intro charged b₂ s₂ hle₂ _
        split
        · apply Contract.safe_monadBind.mpr
          apply (safe_completeTask nodeId resultBytes fun w hw ↦
            hopen w (hle₁ tid w (hle₂ tid w hw))).mono
          exact fun _ _ _ _ ↦ trivial
        · trivial
      · exact safe_rejectReceipt nodeId _ fun w hw ↦ hopen w (hle₁ tid w hw)
      · trivial
  | failure error =>
    apply Contract.safe_monadBind.mpr
    apply (safe_failTask nodeId _ hopen).mono
    exact fun _ _ _ _ ↦ trivial
  | malformed => trivial

/-- A task is ended or put back by a call that has found a claim token in it. -/
theorem safe_submitTaskResult [Sha256] (auth : NodeAuth) (tid : Tid) (claimToken : Option Token)
    (body : ResultBody) : upkeep.Safe (submitTaskResult auth tid claimToken body) Ends b s := by
  apply safe_each (silent_requireNodeAuth auth)
  intro answer b₁ s₁ _ _
  split
  · trivial
  · apply safe_getTask
    intro b₂ s₂ _ hlook _ hsteady
    split
    · trivial
    · rename_i task htask
      split
      · trivial
      · split
        · trivial
        · rename_i htoken
          have hlive : task.status.live = true :=
            (hsteady.task tid task htask).tokens (Or.inl (some_of_compareToken htoken))
          apply safe_submitBody
          intro w hw
          rw [hlook w hw]
          exact hsteady.open_of_live htask hlive

end Ends

/-! ## The other calls -/

theorem silent_saddNodes (nodeId : NodeId) : Silent (Server.saddNodes nodeId) :=
  silent_write [] fun _ ↦ ⟨rfl, rfl, fun _ _ _ ↦ rfl⟩

theorem silent_register (a : Register) : Silent (register a) := by
  refine (silent_resolveRegistrationIdentity _).bind fun answer ↦ ?_
  split
  · trivial
  · rename_i owner
    refine (silent_read _ _).bind fun timestamp ↦ ?_
    have hnode (s : Store) : s.SameToTasks (s.putNode a.nodeId (a.node owner timestamp)) :=
      ⟨rfl, rfl, fun _ _ _ ↦ rfl⟩
    refine (silent_write [] hnode).bind fun _ ↦ (silent_saddNodes _).bind fun _ ↦ ?_
    split
    · trivial
    · trivial
    · trivial
    · rename_i key _
      have hkey (s : Store) : s.SameToTasks (s.putPublicKey a.nodeId key) :=
        ⟨rfl, rfl, fun _ _ _ ↦ rfl⟩
      exact (silent_write [] hkey).bind fun _ ↦ silent_pure _

theorem silent_health (auth : NodeAuth) : Silent (health auth) := by
  refine (silent_requireNodeAuth auth).bind fun answer ↦ ?_
  split
  · trivial
  · exact (silent_read _ _).bind fun timestamp ↦ (silent_hsetNode _ _).bind fun _ ↦
      (silent_saddNodes _).bind fun _ ↦ (silent_extendTaskLease _).bind fun _ ↦ silent_pure _

theorem silent_putJob (jobId : JobId) (job : Job) : Silent (Server.putJob jobId job) :=
  silent_write [] fun _ ↦ ⟨rfl, rfl, fun _ _ _ ↦ rfl⟩

theorem silent_createJob (a : CreateJob) : Silent (createJob a) :=
  (silent_read _ _).bind fun _ ↦ (silent_putJob _ _).bind fun _ ↦ silent_pure _

/-- No task has the id. -/
structure TaskView.Free (v : TaskView) : Prop where
  hash : v.hash = none
  queued : ∀ key, v.queued key = 0

section Others

variable {b : Belief Tid TaskView} {s : Store}

/-- A task is created by a call whose id is free, and which nobody else uses. -/
theorem safe_createTask (a : CreateTask) {w₀ : TaskView} (hfree : w₀.Free)
    (hnew : ∀ w, b a.tid w → w = w₀) : upkeep.Safe (createTask a) Ends b s := by
  apply safe_read
  intro b₁ s₁ hle₁ _ _
  apply safe_putFile
  · intro w w' hw hw'
    rw [hnew w (hle₁ _ w hw), hnew w' (hle₁ _ w' hw')]
  intro b₂ s₂ s₂' hwritten₂ hs₂ _
  have hfree₂ (w : TaskView) (hw : b₂ a.tid w) : w.Free := by
    obtain ⟨hbefore, rfl⟩ := hwritten₂ w hw
    have hview := hnew _ (hle₁ _ _ hbefore)
    rw [← hview] at hfree
    rw [hs₂]
    exact ⟨hfree.hash, hfree.queued⟩
  apply safe_putFile
  · intro w w' hw hw'
    rw [(hwritten₂ w hw).2, (hwritten₂ w' hw').2]
  intro b₃ s₃ s₃' hwritten₃ hs₃ _
  have hthere (w : TaskView) (hw : b₃ a.tid w) : w.hash = none ∧ (∀ key, w.queued key = 0) ∧
      w.payload a.jobId a.filename = true := by
    obtain ⟨hbefore, rfl⟩ := hwritten₃ w hw
    have hbefore := hfree₂ _ hbefore
    refine ⟨?_, ?_, ?_⟩
    · rw [hs₃]
      exact hbefore.hash
    · rw [hs₃]
      exact hbefore.queued
    · rw [hs₃, Store.taskView_payload, Store.putFile_file, Function.update_self]
      rfl
  apply safe_read
  intro b₄ s₄ hle₄ _ _
  have hrow (s' : Store) : s'.SameToTasks (s'.putRow a.tid (a.keyRow s₄.nodePublicKey)) :=
    ⟨rfl, rfl, fun _ _ _ ↦ rfl⟩
  apply safe_write hrow
  intro b₅ s₅ hle₅ _
  apply safe_putTask rfl rfl rfl rfl
  · exact fun w hw ↦ hthere w (hle₄ _ w (hle₅ _ w hw))
  intro b₆ s₆ hwait _
  have hlist (s' : Store) : s'.SameToTasks (s'.pushJobTask a.jobId a.tid) :=
    ⟨rfl, rfl, fun _ _ _ ↦ rfl⟩
  apply safe_write hlist
  intro b₇ s₇ hle₇ _
  apply Contract.safe_monadBind.mpr
  apply safe_rpush
  · exact fun w hw ↦ hwait w (hle₇ _ w hw)
  · exact fun _ _ _ ↦ trivial

/-- The purge deletes a file when it has seen that its task has ended or is not there. -/
theorem safe_purgeFile (v : Visit) : upkeep.Safe (purgeFile v) Ends b s := by
  have htask : getTaskNamed (beforeDot v.filepath.name) = Server.getTask v.filepath.tid := by
    rw [beforeDot_name]
    exact dif_pos v.filepath.tid.valid
  unfold purgeFile
  rw [htask]
  apply safe_getTask
  intro b₁ s₁ _ hlook _ _
  split
  · rename_i hdelete
    have hshould : shouldDelete (s₁.task v.filepath.tid) v.now v.retentionSeconds = true :=
      (Bool.and_eq_true_iff.mp hdelete).2
    show upkeep.Safe (Server.write (·.dropFile v.filepath) [] >>= pure) Ends b₁ s₁
    apply safe_dropFile
    · intro jobId tid filename hpath w hw status path hhash
      have htid : v.filepath.tid = tid := by rw [hpath]; rfl
      rw [htid] at hlook hshould
      rw [hlook w hw] at hhash
      obtain ⟨task, htask, hpair⟩ := Option.map_eq_some_iff.mp hhash
      cases hpair
      rw [htask] at hshould
      exact (Bool.and_eq_true_iff.mp hshould).1
    · exact fun _ _ _ ↦ trivial
  · trivial

theorem safe_purge (execute : Bool) (retentionSeconds : Time) (files : List Path) :
    upkeep.Safe (purge execute retentionSeconds files) Ends b s := by
  apply safe_read
  intro b₁ s₁ _ _ _
  exact Contract.safe_forEach (fun _ _ _ ↦ safe_purgeFile _) files b₁ s₁

end Others

/-! ## Overlapping calls -/

/-- A request, a sweep, the passage of time, or an execution of the purge script. -/
inductive ServerCall
  | request (a : Action)
  | purge (execute : Bool) (retentionSeconds : Time) (files : List Path)

namespace ServerCall

def code [Sha256] : ServerCall → Server Unit
  | request a => do
    let _ ← handle a
    return ()
  | purge execute retentionSeconds files => TandemAio.purge execute retentionSeconds files

def created : ServerCall → List Tid
  | request (.createTask a) => [a.tid]
  | _ => []

/-- A task id is drawn anew.  Redis does not drop task hashes here. -/
def Starts (s : Store) : ServerCall → Prop
  | request (.createTask a) => (s.taskView a.tid).Free
  | request (.expireTask _) => False
  | _ => True

/-- A call knows that the id that it draws is new. -/
def thread [Sha256] (s : Store) (c : ServerCall) : Thread Store Tid TaskView Unit :=
  ⟨c.code, fun tid w ↦ tid ∈ c.created → w = s.taskView tid⟩

end ServerCall

/-- The calls that may start. -/
inductive Joins [Sha256] (s : Store) : Thread Store Tid TaskView Unit → Prop
  | call (c : ServerCall) : c.Starts s → Joins s (c.thread s)

theorem safe_handle [Sha256] {a : Action} {b : Belief Tid TaskView} {s : Store}
    (hstarts : (ServerCall.request a).Starts s)
    (hb : ∀ tid w, b tid w → tid ∈ (ServerCall.request a).created → w = s.taskView tid) :
    upkeep.Safe (handle a) Ends b s := by
  have hsilent {α : Type} {p : Server α} (hp : Silent p) : upkeep.Safe p Ends b s :=
    Contract.safe_of_each hp fun _ _ _ _ _ ↦ trivial
  cases a with
  | register a => exact hsilent (silent_register a)
  | createJob a => exact hsilent ((silent_createJob a).bind fun _ ↦ silent_pure _)
  | createTask a =>
    apply Contract.safe_monadBind.mpr
    apply (safe_createTask a hstarts fun w hw ↦ hb a.tid w hw List.mem_cons_self).mono
    exact fun _ _ _ _ ↦ trivial
  | claim auth claimToken downloadToken => exact safe_claimTask auth claimToken downloadToken
  | download auth tid downloadToken => exact safe_downloadTaskBlob auth tid downloadToken
  | result auth tid claimToken body => exact safe_submitTaskResult auth tid claimToken body
  | health auth => exact hsilent (silent_health auth)
  | availableNodes requiredRuntime =>
    apply Contract.safe_monadBind.mpr
    apply Contract.safe_monadBind.mpr
    apply safe_requeueStaleTasks.mono
    intro _ b₁ s₁ _
    apply Contract.safe_of_each (silent_getHealthyNodeIds none requiredRuntime)
    exact fun _ _ _ _ _ ↦ trivial
  | sweep =>
    apply Contract.safe_monadBind.mpr
    apply safe_sweepStaleWork.mono
    exact fun _ _ _ _ ↦ trivial
  | refreshJob jobId => exact hsilent ((silent_refreshJobStatus jobId).bind fun _ ↦ silent_pure _)
  | tick now =>
    have hclock (s : Store) : s.SameToTasks (s.setClock now) := ⟨rfl, rfl, fun _ _ _ ↦ rfl⟩
    exact hsilent ((silent_write [] hclock).bind fun _ ↦ silent_pure _)
  | expireTask tid => exact hstarts.elim

theorem admits_joins [Sha256] : upkeep.Admits Joins := by
  rintro s t ⟨c, hstarts⟩ hs
  cases c with
  | request a =>
    apply Contract.safe_monadBind.mpr
    apply (safe_handle hstarts fun _ _ hw ↦ hw).mono
    exact fun _ _ _ _ ↦ trivial
  | purge execute retentionSeconds files => exact safe_purge execute retentionSeconds files

theorem steady_initial (deployment : Pid → Option Deployment) (userApi : ApiKey → Option Nat)
    (nodeRegistrationToken : Option Token) :
    (Store.initial deployment userApi nodeRegistrationToken).Steady where
  task := by
    intro tid a ha
    cases ha
  once := by
    intro tid key
    exact Nat.zero_le 1
  apart := by
    intro tid key key' hmem
    cases hmem

section Overlaps

variable [Sha256] {deployment : Pid → Option Deployment} {userApi : ApiKey → Option Nat}
  {nodeRegistrationToken : Option Token} {p q : Pool Store Tid TaskView Unit}

/-- A server to which no call has come yet. -/
abbrev emptyPool (deployment : Pid → Option Deployment) (userApi : ApiKey → Option Nat)
    (nodeRegistrationToken : Option Token) : Pool Store Tid TaskView Unit :=
  ⟨Store.initial deployment userApi nodeRegistrationToken, []⟩

theorem poolInv_of_run
    (hp : UpToDateRun sight Joins (emptyPool deployment userApi nodeRegistrationToken) p) :
    upkeep.PoolInv p := by
  have hstart : upkeep.PoolInv (emptyPool deployment userApi nodeRegistrationToken) :=
    ⟨steady_initial deployment userApi nodeRegistrationToken, fun t ht ↦ by cases ht⟩
  exact (hstart.run admits_joins hp).1

/-- As long as every call acts on tasks as it last saw them, a completed task stays as it is, and
no id is in the queues twice. -/
theorem overlap_keeps_finished
    (hp : UpToDateRun sight Joins (emptyPool deployment userApi nodeRegistrationToken) p)
    (hq : UpToDateRun sight Joins p q) :
    (∀ tid task, p.store.task tid = some task → task.status = .completed →
      ∃ task', q.store.task tid = some task' ∧ task'.status = .completed ∧
        task'.resultPath = task.resultPath) ∧
    (∀ tid key, (q.store.queue key).count tid ≤ 1) ∧
    ∀ tid key key', tid ∈ q.store.queue key → tid ∈ q.store.queue key' → key = key' := by
  obtain ⟨hinv, hfollows⟩ := (poolInv_of_run hp).run admits_joins hq
  refine ⟨fun tid task htask hcompleted ↦ ?_, hinv.inv.once, hinv.inv.apart⟩
  obtain ⟨task', htask', _, hend⟩ := hfollows tid task htask
  obtain ⟨hstatus, hresult⟩ := hend (by rw [hcompleted]; rfl)
  exact ⟨task', htask', hstatus.trans hcompleted, hresult⟩

/-- As long as every call acts on tasks as it last saw them, the payload of a task that has not
ended is there. -/
theorem overlap_keeps_payloads
    (hp : UpToDateRun sight Joins (emptyPool deployment userApi nodeRegistrationToken) p)
    (tid : Tid) (task : Task) (htask : p.store.task tid = some task)
    (hstatus : task.status = .queued ∨ task.status = .claimed ∨ task.status = .running) :
    p.store.file task.blobPath ≠ none := by
  apply ((poolInv_of_run hp).inv.task tid task htask).payload
  rcases hstatus with h | h | h <;> rw [h] <;> rfl

end Overlaps

/-! ## Runs on concrete calls -/

section Pools

variable [Sha256] {ok : Thread Store Tid TaskView Unit → Store → Store → Prop}

/-- Calls may start one after the other before any of them runs. -/
theorem poolRun_start (calls : List ServerCall) (s : Store)
    (threads : List (Thread Store Tid TaskView Unit)) (h : ∀ c ∈ calls, c.Starts s) :
    PoolRun sight Joins ok ⟨s, threads⟩ ⟨s, threads ++ calls.map (·.thread s)⟩ := by
  induction calls generalizing threads with
  | nil =>
    rw [List.map_nil, List.append_nil]
    exact .refl _
  | cons c calls ih =>
    have hjoin : PoolStep sight Joins ⟨s, threads⟩ none ⟨s, threads ++ [c.thread s]⟩ :=
      .spawn (.call c (h c List.mem_cons_self))
    have hrest := ih (threads ++ [c.thread s]) fun c' hc' ↦ h c' (List.mem_cons_of_mem c hc')
    rw [List.append_assoc] at hrest
    exact ((PoolRun.refl _).step hjoin fun t ht ↦ by cases ht).trans hrest

/-- The pool in which a call starts and makes `n` steps. -/
def alone (n : Nat) (p : Pool Store Tid TaskView Unit) (c : ServerCall) :
    Pool Store Tid TaskView Unit :=
  Pool.runs sight (List.replicate n p.threads.length) ⟨p.store, p.threads ++ [c.thread p.store]⟩

/-- A call that runs alone is up to date. -/
theorem upToDateRun_call (n : Nat) {p : Pool Store Tid TaskView Unit} {c : ServerCall}
    (h : c.Starts p.store) : UpToDateRun sight Joins p (alone n p c) := by
  have hjoin : PoolStep sight Joins p none ⟨p.store, p.threads ++ [c.thread p.store]⟩ :=
    .spawn (.call c h)
  refine ((PoolRun.refl p).step hjoin fun t ht ↦ by cases ht).trans ?_
  apply upToDateRun_alone Joins (List.getElem?_concat_length ..)
  exact fun tid _ ↦ rfl

/-- Calls that run one after the other are up to date. -/
theorem upToDateRun_calls (n : Nat) (calls : List ServerCall) (p : Pool Store Tid TaskView Unit)
    (h : ∀ c ∈ calls, ∀ s, c.Starts s) :
    UpToDateRun sight Joins p (calls.foldl (alone n) p) := by
  induction calls generalizing p with
  | nil => exact .refl p
  | cons c calls ih =>
    exact (upToDateRun_call n (h c List.mem_cons_self p.store)).trans
      (ih (alone n p c) fun c' hc' ↦ h c' (List.mem_cons_of_mem c hc'))

end Pools

namespace Sample

/-- A server on which calls have been started. -/
def started (calls : List ServerCall) : Pool Store Tid TaskView Unit :=
  ⟨server, calls.map (·.thread server)⟩

def newPool : Pool Store Tid TaskView Unit := emptyPool (fun _ ↦ none) (fun _ ↦ none) none

/-- `nodeA` delivers one byte for `task1`. -/
def delivery : ServerCall := .request (.result authA task1 (some claim1) (.octetStream [42]
  (.object (reportSuccess 1 task1 ⟨[42], 7, Sha256.hexdigest [], hashed_nil⟩))))

/-- A task of `nodeA` runs; six seconds later a sweep has read that it runs, and the node delivers
its result. -/
def lateSweep : List ServerCall :=
  [.request (.tick second), .request (join nodeA keyA (some 1)),
    .request (create task1 (some nodeA)), .request (.claim authA claim1 download1),
    .request (.download authA task1 (some download1)), .request (.tick (7 * second)),
    .request .sweep, delivery]

/-- The threads as they run, up to the end of the delivery. -/
def untilDelivered : List Nat :=
  0 :: List.replicate 6 1 ++ List.replicate 8 2 ++ List.replicate 13 3 ++ List.replicate 7 4 ++
    5 :: List.replicate 4 6 ++ List.replicate 30 7

def delivered1 : Pool Store Tid TaskView Unit := (started lateSweep).runs sight untilDelivered

/-- A task is created, and the purge comes to its payload. -/
def earlyPurge : List ServerCall :=
  [.request (create task1 none), .purge true 0 [.task job task1 "main.wasm"]]

/-- The purge looks for the task and removes the payload before the hash of the task is stored. -/
def purged1 : Pool Store Tid TaskView Unit :=
  (started earlyPurge).runs sight (List.replicate 5 0 ++ List.replicate 3 1 ++ List.replicate 3 0)

/-- The calls for `task1` one after the other, once it has been created. -/
def inOrder : List ServerCall :=
  [.request (.tick second), .request (join nodeA keyA (some 1)),
    .request (.claim authA claim1 download1), .request (.download authA task1 (some download1))]

def created1 : Pool Store Tid TaskView Unit := alone 20 newPool (.request (create task1 none))

def running1 : Pool Store Tid TaskView Unit := inOrder.foldl (alone 40) created1

def completed1 : Pool Store Tid TaskView Unit := alone 40 running1 delivery

/-- A sweep and a purge after the end of the task. -/
def cleaned1 : Pool Store Tid TaskView Unit :=
  [.request .sweep, .purge true 0 [.task job task1 "main.wasm"]].foldl (alone 40) completed1

theorem created1_run : UpToDateRun sight Joins newPool created1 :=
  upToDateRun_call 20 ⟨rfl, fun _ ↦ rfl⟩

theorem running1_run : UpToDateRun sight Joins newPool running1 := by
  apply created1_run.trans
  apply upToDateRun_calls
  intro c hc s
  fin_cases hc <;> trivial

theorem completed1_run : UpToDateRun sight Joins newPool completed1 :=
  running1_run.trans (upToDateRun_call 40 trivial)

theorem cleaned1_run : UpToDateRun sight Joins completed1 cleaned1 := by
  apply upToDateRun_calls
  intro c hc s
  fin_cases hc <;> trivial

end Sample

open Sample in
theorem overlap_keeps_finished_delivered : ∃ task, cleaned1.store.task task1 = some task ∧
    task.status = .completed ∧ task.resultPath = some (.result job task1) := by
  have hcompleted : (completed1.store.task task1).map (fun t ↦ (t.status, t.resultPath)) =
      some (.completed, some (.result job task1)) := by decide +kernel
  obtain ⟨task, htask, hpair⟩ := Option.map_eq_some_iff.mp hcompleted
  obtain ⟨hstatus, hresult⟩ := Prod.mk.inj hpair
  obtain ⟨hstays, _⟩ := overlap_keeps_finished completed1_run cleaned1_run
  obtain ⟨task', htask', hstatus', hresult'⟩ := hstays task1 task htask hstatus
  exact ⟨task', htask', hstatus', hresult'.trans hresult⟩

open Sample in
theorem overlap_keeps_payloads_running : ∃ task, running1.store.task task1 = some task ∧
    task.status = .running ∧ running1.store.file task.blobPath ≠ none := by
  have hrunning : (running1.store.task task1).map (·.status) = some .running := by decide +kernel
  obtain ⟨task, htask, hstatus⟩ := Option.map_eq_some_iff.mp hrunning
  exact ⟨task, htask, hstatus,
    overlap_keeps_payloads running1_run task1 task htask (Or.inr (Or.inr hstatus))⟩

open Sample in
/-- A sweep that has read that a task runs puts it back in a queue after it has completed. -/
theorem completed_task_is_requeued :
    ¬∀ p q : Pool Store Tid TaskView Unit, PoolRun sight Joins (fun _ _ _ ↦ True) newPool p →
      PoolRun sight Joins (fun _ _ _ ↦ True) p q →
      (∀ tid task, p.store.task tid = some task → task.status = .completed →
        ∃ task', q.store.task tid = some task' ∧ task'.status = .completed ∧
          task'.resultPath = task.resultPath) ∧
      (∀ tid key, (q.store.queue key).count tid ≤ 1) ∧
      ∀ tid key key', tid ∈ q.store.queue key → tid ∈ q.store.queue key' → key = key' := by
  intro h
  have hstarts : ∀ c ∈ lateSweep, c.Starts server := by
    intro c hc
    fin_cases hc <;> first | trivial | exact ⟨rfl, fun _ ↦ rfl⟩
  have hrun : PoolRun sight Joins (fun _ _ _ ↦ True) newPool delivered1 :=
    (poolRun_start lateSweep server [] hstarts).trans (poolRun_runs Joins _ untilDelivered)
  have hcompleted : (delivered1.store.task task1).map (·.status) = some .completed := by
    decide +kernel
  have hqueued : ((delivered1.runs sight (List.replicate 20 6)).store.task task1).map (·.status) =
      some .queued := by decide +kernel
  obtain ⟨task, htask, hstatus⟩ := Option.map_eq_some_iff.mp hcompleted
  obtain ⟨hstays, _⟩ := h delivered1 _ hrun (poolRun_runs Joins delivered1 (List.replicate 20 6))
  obtain ⟨task', htask', hstatus', _⟩ := hstays task1 task htask hstatus
  rw [htask', Option.map_some, hstatus'] at hqueued
  cases hqueued

open Sample in
/-- The purge finds the payload of a task whose hash is not stored yet. -/
theorem queued_task_without_payload :
    ¬∀ p : Pool Store Tid TaskView Unit, PoolRun sight Joins (fun _ _ _ ↦ True) newPool p →
      (∀ t ∈ p.threads, t.code = .ret ()) → ∀ tid task, p.store.task tid = some task →
      task.status = .queued ∨ task.status = .claimed ∨ task.status = .running →
      p.store.file task.blobPath ≠ none := by
  intro h
  have hstarts : ∀ c ∈ earlyPurge, c.Starts server := by
    intro c hc
    fin_cases hc <;> first | trivial | exact ⟨rfl, fun _ ↦ rfl⟩
  have hrun : PoolRun sight Joins (fun _ _ _ ↦ True) newPool purged1 :=
    (poolRun_start earlyPurge server [] hstarts).trans (poolRun_runs Joins _ _)
  have hended : ∀ t ∈ purged1.threads, t.code = .ret () := by
    intro t ht
    fin_cases ht <;> rfl
  have hqueued : (purged1.store.task task1).map (fun t ↦
      (t.status, purged1.store.file t.blobPath)) = some (.queued, none) := by decide +kernel
  obtain ⟨task, htask, hpair⟩ := Option.map_eq_some_iff.mp hqueued
  obtain ⟨hstatus, hmissing⟩ := Prod.mk.inj hpair
  exact h purged1 hrun hended task1 task htask (Or.inl hstatus) hmissing

end TandemAio
