import TandemAio.Requests

/-!
# Stopping in the middle

The server can stop between any two commands.  The state this leaves is one that complete moves
lead to, or such a state and the first writes of one more move, which has one task in hand.
-/

open Reasoning Reasoning.Prog

namespace TandemAio

namespace Store

/-- `create_task` up to its task hash. -/
@[simps] def createHash (s : Store) (a : CreateTask) : Store :=
  { s with
    file := Function.update s.file a.blobPath (some (.aesGcm a.dek a.iv a.payload))
    taskEncryptionKey := (s.putRow a.tid (a.keyRow s.nodePublicKey)).taskEncryptionKey
    task := Function.update s.task a.tid (some (a.task s.clock)) }

/-- A node that exists, if one is named. -/
def HasNode (s : Store) (nodeId : Option NodeId) : Prop :=
  ∀ n, nodeId = some n → ∃ node, s.node n = some node

theorem hasNode_head?_healthyNodeIds (s : Store) (exclude : Option NodeId)
    (runtime : Option Runtime) : s.HasNode (s.healthyNodeIds exclude runtime).head? := by
  intro n hn
  obtain ⟨-, -, node, hnode, -⟩ := mem_healthyNodeIds.mp (List.mem_of_mem_head? hn)
  exact ⟨node, hnode⟩

end Store

/-- The first writes of a move, the task they have in hand, and the ids and tokens they bring into
the state. -/
inductive Half : Store → Tid → List Name → Store → Prop
  /-- An id has left its queue. -/
  | popped {s key tid rest} : s.queue key = tid :: rest → Half s tid [] (s.pop key)
  /-- An id has left its queue, and its hash says that it waits elsewhere. -/
  | popRequeued {s key tid rest task destination} : s.queue key = tid :: rest →
      s.task tid = some task → s.HasNode destination →
      Half s tid [] ((s.pop key).modifyTask tid (·.requeue destination s.clock))
  /-- The hash of a live task says that it waits. -/
  | requeued {s tid task destination} : s.task tid = some task → task.status.live = true →
      s.HasNode destination → Half s tid [] (s.modifyTask tid (·.requeue destination s.clock))
  /-- A live task is back in a queue, and its node still points at it. -/
  | unpointed {s tid task destination} : s.task tid = some task → task.status.live = true →
      s.HasNode destination → Half s tid [] (s.requeue tid destination task.runtime)
  /-- The hash says that a node has claimed the task, and the node does not point at it. -/
  | taken {s nodeId node key tid rest task claimToken downloadToken} :
      s.node nodeId = some node → node.currentTask = none → s.queue key = tid :: rest →
      s.task tid = some task → Half s tid [claimToken, downloadToken]
        ((s.pop key).modifyTask tid (·.claim nodeId claimToken downloadToken s.clock))
  /-- A new task is in no queue. -/
  | created {s a} : s.UnusedTask a.tid → s.HasNode a.assignedNode →
      Half s a.tid [a.tid] (s.createHash a)
  | listed {s a} : s.UnusedTask a.tid → s.HasNode a.assignedNode →
      Half s a.tid [a.tid] ((s.createHash a).pushJobTask a.jobId a.tid)
  /-- A bad receipt has been counted. -/
  | struck {s nodeId node tid} : s.node nodeId = some node → Half s tid [] (s.strike nodeId)
  | struckRequeued {s nodeId node tid task} : s.node nodeId = some node →
      s.task tid = some task → task.status.live = true →
      Half s tid [] ((s.strike nodeId).modifyTask tid (·.requeue none s.clock))

/-- Moves with labels in `P`, and the first writes of one more at most, which bring in ids and
tokens of `D`. -/
def Stopped (P : Label → Prop) (D : List Name) (s s' : Store) : Prop :=
  ∃ s₁, Via P s s₁ ∧ (s' = s₁ ∨ ∃ tid draws, Half s₁ tid draws s' ∧ draws ⊆ D)

theorem Via.stopped {P : Label → Prop} {D : List Name} {s s' : Store} (h : Via P s s') :
    Stopped P D s s' := ⟨s', h, .inl rfl⟩

theorem Via.half {P : Label → Prop} {s s₁ s' : Store} {tid : Tid} {draws D : List Name}
    (h : Via P s s₁) (hh : Half s₁ tid draws s') (hD : draws ⊆ D) : Stopped P D s s' :=
  ⟨s₁, h, .inr ⟨tid, draws, hh, hD⟩⟩

theorem Stopped.mono {P P' : Label → Prop} {D : List Name} {s s' : Store} (h : Stopped P D s s')
    (hP : ∀ l, P l → P' l) : Stopped P' D s s' := by
  obtain ⟨s₁, hv, hs'⟩ := h
  exact ⟨s₁, hv.mono hP, hs'⟩

theorem Stopped.of_via {P : Label → Prop} {D : List Name} {s s₁ s' : Store} (h : Via P s s₁)
    (h' : Stopped P D s₁ s') : Stopped P D s s' := by
  obtain ⟨s₂, hv, hs'⟩ := h'
  exact ⟨s₂, h.trans hv, hs'⟩

section Programs

variable {s₀ s : Store} {P : Label → Prop} {D : List Name} {Q : Store → Prop}

/-! ## Reading and requeueing -/

theorem always_getAllNodeIds : always getAllNodeIds (· = s) s := by
  rw [getAllNodeIds, Server.always_read_bind]
  exact (always_pure _ _ s).mpr rfl

theorem always_getHealthyNodeIds (exclude : Option NodeId) (runtime : Option Runtime) :
    always (getHealthyNodeIds exclude runtime) (· = s) s := by
  rw [getHealthyNodeIds, Server.always_read_bind]
  refine always_bind always_getAllNodeIds ((wp_getAllNodeIds _).mpr ?_)
  refine (always_collect (fun nodeId ↦ ?_) s.allNodeIds).1
  by_cases he : exclude = some nodeId
  · rw [if_pos he]
    exact ⟨(always_pure none _ s).mpr rfl, (wp_pure none _ s).mpr rfl⟩
  · rw [if_neg he, Server.always_read_bind, wp_bind, Server.wp_read]
    cases s.node nodeId with
    | none => exact ⟨(always_pure none _ s).mpr rfl, (wp_pure none _ s).mpr rfl⟩
    | some node =>
      simp only
      split <;> exact ⟨(always_pure _ _ s).mpr rfl, (wp_pure _ _ s).mpr rfl⟩

/-- A list of nodes is read, and the rest of the program runs in the same state. -/
theorem always_healthyNodeIds_bind {α : Type} {exclude : Option NodeId}
    {runtime : Option Runtime} {k : List NodeId → Server α}
    (h : always (k (s.healthyNodeIds exclude runtime)) Q s) :
    always (getHealthyNodeIds exclude runtime >>= k) Q s := by
  refine always_bind ((always_getHealthyNodeIds exclude runtime).mono fun s' he ↦ ?_)
    ((wp_getHealthyNodeIds exclude runtime _).mpr h)
  rw [he]
  exact h.start

theorem always_requeueTask {tid : Tid} {task : Task} (destination : Option NodeId)
    (ht : s.task tid = some task) : always (requeueTask tid destination) Q s ↔
      Q s ∧ Q (s.modifyTask tid (·.requeue destination s.clock)) ∧
        Q (s.requeue tid destination task.runtime) := by
  rw [requeueTask, Server.always_read_bind]
  simp only [ht, Server.always_read_bind, Server.always_write_bind, Server.always_write]
  rfl

/-- A task is requeued and the program goes on. -/
theorem always_requeueTask_bind {α : Type} {tid : Tid} {task : Task}
    {destination : Option NodeId} {k : Unit → Server α} (ht : s.task tid = some task)
    (hs : Q s) (hhash : Q (s.modifyTask tid (·.requeue destination s.clock)))
    (hk : always (k ()) Q (s.requeue tid destination task.runtime)) :
    always (requeueTask tid destination >>= k) Q s := by
  refine always_bind ((always_requeueTask destination ht).mpr ⟨hs, hhash, hk.start⟩) ?_
  rw [wp_requeueTask]
  simp only [ht]
  exact hk

/-! ## The failover passes -/

theorem always_requeueStaleNode {nodeId : NodeId} (hmem : nodeId ∈ s.nodes)
    (hv : Via Label.stale s₀ s) :
    always (requeueStaleNode s.clock nodeId) (Stopped Label.stale D s₀) s := by
  have hs : Stopped Label.stale D s₀ s := hv.stopped
  rw [requeueStaleNode, Server.always_read_bind]
  cases hn : s.node nodeId with
  | none => exact (always_pure () _ s).mpr hs
  | some node =>
    by_cases hh : isNodeHealthy node s.clock = true
    · simp only [hh, if_true, always_pure]
      exact hs
    · have hdead : s.dead nodeId := ⟨hmem, node, hn, by simpa using hh⟩
      simp only [hh, Bool.false_eq_true, if_false]
      cases hc : node.currentTask with
      | none => exact (always_pure () _ s).mpr hs
      | some tid =>
        -- the pointer is cleared when it is no live task
        have hclear : (∀ tid' task, node.currentTask = some tid' → s.task tid' = some task →
            task.status.live = false) →
            always (Server.hsetNode nodeId Node.clearCurrentTask) (Stopped Label.stale D s₀) s := by
          intro hdone
          refine (Server.always_write _ _ _ s).mpr ⟨hs, ?_⟩
          exact (hv.trans (.single (.clearPointer hn hdone) trivial)).stopped
        simp only [Server.always_read_bind]
        cases ht : s.task tid with
        | none =>
          refine hclear fun tid' task hc' ht' ↦ ?_
          rw [hc, Option.some.injEq] at hc'
          rw [← hc', ht] at ht'
          cases ht'
        | some task =>
          by_cases hl : task.status.live = true
          · simp only [hl, if_true]
            have hdest := s.hasNode_head?_healthyNodeIds (some nodeId) (some task.runtime)
            refine always_healthyNodeIds_bind (always_requeueTask_bind ht hs
              (hv.half (.requeued ht hl hdest) (List.nil_subset D))
              ((Server.always_write _ _ _ _).mpr ⟨?_, ?_⟩))
            · exact hv.half (.unpointed ht hl hdest) (List.nil_subset D)
            · exact (hv.trans (.single (.reclaim hdead hn hc ht hl) trivial)).stopped
          · simp only [hl, Bool.false_eq_true, if_false]
            refine hclear fun tid' task' hc' ht' ↦ ?_
            rw [hc, Option.some.injEq] at hc'
            rw [← hc', ht, Option.some.injEq] at ht'
            rw [← ht']
            simpa using hl

theorem always_requeueStaleTasks (hv : Via Label.stale s₀ s) :
    always requeueStaleTasks (Stopped Label.stale D s₀) s := by
  rw [requeueStaleTasks, Server.always_read_bind]
  refine always_bind (always_getAllNodeIds.mono fun s' he ↦ he ▸ hv.stopped)
    ((wp_getAllNodeIds _).mpr ?_)
  refine always_forEach (fun nodeIds s' ↦ Via Label.stale s s' ∧ ∀ n ∈ nodeIds, n ∈ s.nodes)
    (fun nodeId nodeIds s₁ h ↦ ?_) (fun s₁ h ↦ (hv.trans h.1).stopped)
    ⟨.refl _ s, fun n hn ↦ (List.mem_insertionSort _).mp hn⟩
  have hr := (h.1.mono fun l hl ↦ Or.inl hl).sameRoster
  have hmem : nodeId ∈ s₁.nodes := by
    rw [hr.nodes]
    exact h.2 nodeId List.mem_cons_self
  rw [← hr.clock]
  refine ⟨always_requeueStaleNode hmem (hv.trans h.1), (wp_requeueStaleNode hmem).mono
    fun _ s₂ h₂ ↦ ⟨h.1.trans h₂.1, fun n hn ↦ h.2 n (List.mem_cons_of_mem _ hn)⟩⟩

theorem always_drainOne {nodeId : NodeId} (hdead : s.dead nodeId) (hv : Via Label.drain s₀ s) :
    always (drainOne nodeId) (Stopped Label.drain D s₀) s := by
  have hs : Stopped Label.drain D s₀ s := hv.stopped
  rw [drainOne, Server.always_lpop_bind]
  cases hq : s.queue (.node nodeId) with
  | nil =>
    rw [Store.pop_of_nil hq]
    exact ⟨hs, (always_pure (some ()) _ s).mpr hs⟩
  | cons tid rest =>
    have hpopped : Stopped Label.drain D s₀ (s.pop (.node nodeId)) :=
      hv.half (.popped hq) (List.nil_subset D)
    refine ⟨hs, ?_⟩
    simp only [List.head?_cons, Server.always_read_bind, Store.pop_task]
    cases ht : s.task tid with
    | none => exact (always_pure none _ _).mpr hpopped
    | some task =>
      simp only
      split
      · rename_i hopen
        have hdest : s.HasNode ((s.pop (.node nodeId)).healthyNodeIds (some nodeId)
            (some task.runtime)).head? :=
          (s.pop (.node nodeId)).hasNode_head?_healthyNodeIds (some nodeId) (some task.runtime)
        refine always_healthyNodeIds_bind (always_requeueTask_bind ht hpopped
          (hv.half (.popRequeued hq ht hdest) (List.nil_subset D)) ((always_pure none _ _).mpr ?_))
        exact (hv.trans (.single (.rehome hdead hq ht hopen) trivial)).stopped
      · exact (always_pure none _ _).mpr hpopped

theorem always_drainNode {nodeId : NodeId} (hmem : nodeId ∈ s.nodes) (hv : Via Label.drain s₀ s) :
    always (drainNode s.clock nodeId) (Stopped Label.drain D s₀) s := by
  rw [drainNode, Server.always_read_bind]
  cases hn : s.node nodeId with
  | none => exact (always_pure () _ s).mpr hv.stopped
  | some node =>
    by_cases hh : isNodeHealthy node s.clock = true
    · simp only [hh, if_true, always_pure]
      exact hv.stopped
    · have hdead : s.dead nodeId := ⟨hmem, node, hn, by simpa using hh⟩
      simp only [hh, Bool.false_eq_true, if_false]
      refine always_whileTrue (Via Label.drain s) (fun s₁ h₁ ↦ ?_) (.refl _ s)
      have hd₁ := (h₁.mono fun l hl ↦ Or.inr hl).sameRoster.dead hdead
      refine ⟨always_drainOne hd₁ (hv.trans h₁), (wp_drainOne hd₁).mono fun o s₂ h₂ ↦ ?_⟩
      cases o with
      | some _ =>
        have h₂ : s₂ = s₁ ∧ s₁.queue (.node nodeId) = [] := h₂
        obtain ⟨rfl, -⟩ := h₂
        exact (hv.trans h₁).stopped
      | none => exact h₁.trans (h₂.1.mono fun _ hl ↦ hl.drain)

theorem always_drainDeadNodeQueues (hv : Via Label.drain s₀ s) :
    always drainDeadNodeQueues (Stopped Label.drain D s₀) s := by
  rw [drainDeadNodeQueues, Server.always_read_bind]
  refine always_bind (always_getAllNodeIds.mono fun s' he ↦ he ▸ hv.stopped)
    ((wp_getAllNodeIds _).mpr ?_)
  refine always_forEach (fun nodeIds s' ↦ Via Label.drain s s' ∧ ∀ n ∈ nodeIds, n ∈ s.nodes)
    (fun nodeId nodeIds s₁ h ↦ ?_) (fun s₁ h ↦ (hv.trans h.1).stopped)
    ⟨.refl _ s, fun n hn ↦ (List.mem_insertionSort _).mp hn⟩
  have hr := (h.1.mono fun l hl ↦ Or.inr hl).sameRoster
  have hmem : nodeId ∈ s₁.nodes := by
    rw [hr.nodes]
    exact h.2 nodeId List.mem_cons_self
  rw [← hr.clock]
  refine ⟨always_drainNode hmem (hv.trans h.1), (wp_drainNode hmem).mono fun _ s₂ h₂ ↦
    ⟨h.1.trans (h₂.1.mono fun _ hl ↦ hl.2.drain), fun n hn ↦ h.2 n (List.mem_cons_of_mem _ hn)⟩⟩

/-- `sweep_stale_work`, stopped anywhere. -/
theorem always_sweepStaleWork (s : Store) :
    always sweepStaleWork (Stopped (fun l ↦ l.stale ∨ l.drain) D s) s := by
  rw [sweepStaleWork]
  refine always_bind ((always_requeueStaleTasks (.refl _ s)).mono fun s' h ↦
    h.mono fun _ ↦ Or.inl) ((wp_requeueStaleTasks s).mono fun _ s₁ h₁ ↦ ?_)
  refine (always_drainDeadNodeQueues (D := D) (.refl _ s₁)).mono fun s' h ↦ ?_
  exact .of_via (h₁.mono fun _ ↦ Or.inl) (h.mono fun _ ↦ Or.inr)

/-! ## Claims -/

/-- A claim stopped before it has taken a task, or after. -/
def ClaimStopped (nodeId : NodeId) (claimToken downloadToken : Token) (s s' : Store) : Prop :=
  Stopped (Label.ofClaim nodeId claimToken downloadToken none) [claimToken, downloadToken] s s' ∨
    ∃ tid, Via (Label.ofClaim nodeId claimToken downloadToken (some tid)) s s'

theorem always_popQueueTid {key : QueueKey} {nodeId : NodeId} {allowUnassigned : Bool}
    (hkey : key.readBy nodeId allowUnassigned) (hP : ∀ l, l.discards key → P l)
    (hv : Via P s₀ s) :
    always (popQueueTid key nodeId allowUnassigned) (Stopped P D s₀) s := by
  refine always_whileTrue (Via (Label.discards key) s) (fun s₁ h₁ ↦ ?_) (.refl _ s)
  have hv₁ : Via P s₀ s₁ := hv.trans (h₁.mono hP)
  have hs₁ : Stopped P D s₀ s₁ := hv₁.stopped
  rw [popOne, Server.always_lpop_bind, wp_bind, Server.wp_lpop]
  cases hq : s₁.queue key with
  | nil =>
    rw [Store.pop_of_nil hq]
    simp only [List.head?_nil, always_pure, wp_pure, optionPost]
    exact ⟨⟨hs₁, hs₁⟩, hs₁⟩
  | cons tid rest =>
    have hpopped : Stopped P D s₀ (s₁.pop key) := hv₁.half (.popped hq) (List.nil_subset D)
    simp only [List.head?_cons, Server.always_read_bind, wp_bind, Server.wp_read, Store.pop_task]
    cases ht : s₁.task tid with
    | none =>
      simp only [always_pure, wp_pure, optionPost]
      refine ⟨⟨hs₁, hpopped⟩, h₁.trans (.single (.discard hq fun task h ↦ ?_) rfl)⟩
      rw [ht] at h
      cases h
    | some task =>
      by_cases hk : popKeeps nodeId allowUnassigned task = true
      · simp only [hk, if_true, always_pure, wp_pure, optionPost]
        exact ⟨⟨hs₁, hpopped⟩, hpopped⟩
      · simp only [hk, Bool.false_eq_true, if_false, always_pure, wp_pure, optionPost]
        refine ⟨⟨hs₁, hpopped⟩, h₁.trans (.single (.discard hq fun task' h ↦ .inr ?_) rfl)⟩
        rw [ht, Option.some.injEq] at h
        subst h
        exact not_homeIn_of_not_keeps hkey (by simpa using hk)

theorem always_claimPopped {nodeId : NodeId} {node : Node} {key : QueueKey} {tid : Tid}
    {task : Task} {allowUnassigned : Bool} {claimToken downloadToken : Token}
    (hserves : s.serves nodeId key) (hnode : s.node nodeId = some node.clearCurrentTask)
    (hpop : Popped key nodeId allowUnassigned s tid task)
    (hv : Via (Label.ofClaim nodeId claimToken downloadToken none) s₀ s) :
    always (claimPopped nodeId node tid claimToken downloadToken)
      (ClaimStopped nodeId claimToken downloadToken s₀) (s.pop key) := by
  obtain ⟨⟨rest, hq⟩, ht, -⟩ := hpop
  have hpopped : ClaimStopped nodeId claimToken downloadToken s₀ (s.pop key) :=
    .inl (hv.half (.popped hq) (List.nil_subset _))
  rw [claimPopped, Server.always_read_bind]
  simp only [Store.pop_task, ht]
  by_cases hr : nodeSupportsRuntime node (some task.runtime) = true
  · simp only [hr, if_true, Server.always_read_bind, Server.always_write_bind]
    have htaken : Via (Label.ofClaim nodeId claimToken downloadToken (some tid)) s₀
        (s.take key nodeId tid claimToken downloadToken) := by
      refine (hv.mono fun l hl ↦ hl.of_none (some tid)).trans
        (.single (.take hserves hnode rfl hq ht hr) ?_)
      exact ⟨rfl, rfl, rfl, rfl⟩
    refine ⟨hpopped, .inl (hv.half (.taken hnode rfl hq ht) (List.Subset.refl _)), ?_⟩
    cases (((s.pop key).modifyTask tid (·.claim nodeId claimToken downloadToken
      (s.pop key).clock)).modifyNode nodeId (·.takeTask tid (s.pop key).clock)).task tid with
    | none => exact (always_pure none _ _).mpr (.inr ⟨tid, htaken⟩)
    | some task' => exact (always_pure _ _ _).mpr (.inr ⟨tid, htaken⟩)
  · simp only [hr, Bool.false_eq_true, if_false]
    refine always_requeueTask_bind ht hpopped
      (.inl (hv.half (.popRequeued hq ht ?_) (List.nil_subset _))) ((always_pure none _ _).mpr ?_)
    · intro n hn
      cases hn
    · exact .inl (hv.trans (.single (.bounce hserves hq ht) rfl)).stopped

theorem always_claimFromQueues {nodeId : NodeId} {node : Node} {claimToken downloadToken : Token}
    (hnode : s.node nodeId = some node.clearCurrentTask)
    (hv : Via (Label.ofClaim nodeId claimToken downloadToken none) s₀ s) :
    always (claimFromQueues nodeId node claimToken downloadToken)
      (ClaimStopped nodeId claimToken downloadToken s₀) s := by
  -- what a pop leaves, as for a claim that is not stopped
  let Found : Tid → Store → Prop := fun tid s' ↦ ∃ s₁ key task allow,
    Via (fun l ↦ ∃ key, l.discards key) s s₁ ∧ s.serves nodeId key ∧
      Popped key nodeId allow s₁ tid task ∧ s' = s₁.pop key
  let Dropped : Store → Prop := fun s' ↦ Via (fun l ↦ ∃ key, l.discards key) s s'
  have hdiscard : ∀ key (l : Label), l.discards key →
      l.ofClaim nodeId claimToken downloadToken none :=
    fun key l hl ↦ hl.ofClaim nodeId claimToken downloadToken none
  have hvia : ∀ s', Dropped s' →
      Via (Label.ofClaim nodeId claimToken downloadToken none) s₀ s' := by
    intro s' h
    refine hv.trans (h.mono fun l hl ↦ ?_)
    obtain ⟨key, hl⟩ := hl
    exact hdiscard key l hl
  have hfound : ∀ tid s', Found tid s' →
      ClaimStopped nodeId claimToken downloadToken s₀ s' := by
    rintro tid s' ⟨s₁, key, task, allow, h₁, -, hp, rfl⟩
    obtain ⟨rest, hq⟩ := hp.head
    exact .inl ((hvia s₁ h₁).half (.popped hq) (List.nil_subset _))
  have hpop : ∀ (key : QueueKey) allow s₁, s.serves nodeId key → key.readBy nodeId allow →
      Dropped s₁ →
      wp (popQueueTid key nodeId allow) (optionPost Found Dropped) s₁ := by
    intro key allow s₁ hserves hkey h₁
    refine (wp_popQueueTid hkey).mono fun o s' h ↦ ?_
    cases o with
    | some tid =>
      obtain ⟨s₂, task, hd, hp, rfl⟩ := h
      exact ⟨s₂, key, task, allow, h₁.trans (hd.mono fun _ hl ↦ ⟨key, hl⟩), hserves, hp, rfl⟩
    | none => exact h₁.trans (h.1.mono fun _ hl ↦ ⟨key, hl⟩)
  have hclaimed : ∀ tid s', Found tid s' →
      always (claimPopped nodeId node tid claimToken downloadToken)
        (ClaimStopped nodeId claimToken downloadToken s₀) s' := by
    rintro tid s' ⟨s₁, key, task, allow, hd, hserves, hp, rfl⟩
    have hs₁ := hd.onlyQueues fun _ hl ↦ hl
    have hnode₁ : s₁.node nodeId = some node.clearCurrentTask := by rw [hs₁]; exact hnode
    have hserves₁ : s₁.serves nodeId key := by rw [hs₁]; exact hserves
    exact always_claimPopped hserves₁ hnode₁ hp (hvia s₁ hd)
  have hown : (QueueKey.node nodeId).readBy nodeId false := rfl
  have hshared : ∀ runtime, (unassignedQueueKey (some runtime)).readBy nodeId true := fun _ ↦ rfl
  rw [claimFromQueues]
  refine always_bind ((always_popQueueTid hown (hdiscard _) hv).mono fun s' h ↦ .inl h)
    ((hpop (.node nodeId) false s rfl rfl (.refl _ s)).mono fun own s₁ h₁ ↦ ?_)
  cases own with
  | some tid =>
    refine always_bind ((always_pure _ _ s₁).mpr (hfound tid s₁ h₁)) ((wp_pure _ _ s₁).mpr ?_)
    exact hclaimed tid s₁ h₁
  | none =>
    refine always_bind (always_firstSome Dropped (fun runtime hr s₂ h₂ ↦ ⟨?_, ?_⟩)
      (fun s₂ h₂ ↦ .inl (hvia s₂ h₂).stopped) h₁) ?_
    · exact (always_popQueueTid (hshared runtime) (hdiscard _) (hvia s₂ h₂)).mono fun s' h ↦ .inl h
    · refine (hpop (unassignedQueueKey (some runtime)) true s₂ (serves_unassigned hnode hr) rfl
        h₂).mono fun o s₃ h₃ ↦ ?_
      cases o with
      | some tid => exact hfound tid s₃ h₃
      | none => exact h₃
    · refine (wp_firstSome (Q := Found) Dropped (fun runtime hr s₂ h₂ ↦ ?_) h₁).mono
        fun o s' h ↦ ?_
      · exact hpop (unassignedQueueKey (some runtime)) true s₂ (serves_unassigned hnode hr) rfl h₂
      · cases o with
        | none => exact (always_pure none _ s').mpr (.inl (hvia s' h).stopped)
        | some tid => exact hclaimed tid s' h

theorem always_claimTaskForNode (s : Store) (nodeId : NodeId) (claimToken downloadToken : Token) :
    always (claimTaskForNode nodeId claimToken downloadToken)
      (ClaimStopped nodeId claimToken downloadToken s) s := by
  have hstale : ∀ l : Label, l.stale → l.ofClaim nodeId claimToken downloadToken none := by
    intro l hl
    cases l with
    | clearPointer | reclaim => trivial
    | _ => exact hl.elim
  rw [claimTaskForNode]
  refine always_bind ((always_requeueStaleTasks (.refl _ s)).mono fun s' h ↦ .inl (h.mono hstale))
    ((wp_requeueStaleTasks s).mono fun _ s₁ h₁ ↦ ?_)
  have hv : Via (Label.ofClaim nodeId claimToken downloadToken none) s s₁ := h₁.mono hstale
  rw [Server.always_read_bind]
  cases hn : s₁.node nodeId with
  | none => exact (always_pure none _ s₁).mpr (.inl hv.stopped)
  | some node =>
    have hclear : (∀ tid task, node.currentTask = some tid → s₁.task tid = some task →
        task.status.live = false) →
        always (do
          Server.hsetNode nodeId Node.clearCurrentTask
          claimFromQueues nodeId node claimToken downloadToken)
          (ClaimStopped nodeId claimToken downloadToken s) s₁ := by
      intro hdone
      have hn' : (s₁.clearPointer nodeId).node nodeId = some node.clearCurrentTask := by
        rw [Store.clearPointer_node, Function.update_self, hn, Option.map_some]
      refine (Server.always_write_bind _ _ _ _ _).mpr ⟨.inl hv.stopped, ?_⟩
      exact always_claimFromQueues hn' (hv.trans (.single (.clearPointer hn hdone) trivial))
    cases hc : node.currentTask with
    | none =>
      have hn' : s₁.node nodeId = some node.clearCurrentTask := by
        rw [hn]
        cases node
        cases hc
        rfl
      simp only [hc]
      exact always_claimFromQueues hn' hv
    | some tid =>
      simp only [hc, Server.always_read_bind]
      cases ht : s₁.task tid with
      | none =>
        refine hclear fun tid' task hc' ht' ↦ ?_
        rw [hc, Option.some.injEq] at hc'
        rw [← hc', ht] at ht'
        cases ht'
      | some task =>
        by_cases hl : task.status.live = true
        · simp only [hl, if_true, always_pure]
          exact .inl hv.stopped
        · simp only [hl, Bool.false_eq_true, if_false]
          refine hclear fun tid' task' hc' ht' ↦ ?_
          rw [hc, Option.some.injEq] at hc'
          rw [← hc', ht, Option.some.injEq] at ht'
          rw [← ht']
          simpa using hl

theorem always_requireNodeAuth (auth : NodeAuth) :
    always (requireNodeAuth auth) (· = s) s := by
  rw [requireNodeAuth]
  cases auth.nodeId with
  | none => exact (always_pure _ _ s).mpr rfl
  | some nodeId =>
    cases auth.token with
    | none => exact (always_pure _ _ s).mpr rfl
    | some token =>
      simp only [Server.always_read_bind]
      cases s.node nodeId with
      | none => exact (always_pure _ _ s).mpr rfl
      | some node =>
        simp only
        split <;> exact (always_pure _ _ s).mpr rfl

/-- A claim, stopped anywhere. -/
theorem always_claimTask (s : Store) (auth : NodeAuth) (claimToken downloadToken : Token) :
    always (claimTask auth claimToken downloadToken) (fun s' ↦ s' = s ∨
      ∃ n, s.Authentic auth n ∧ ClaimStopped n claimToken downloadToken s s') s := by
  rw [claimTask]
  refine always_bind ((always_requireNodeAuth auth).mono fun s' h ↦ .inl h)
    ((wp_requireNodeAuth s auth _).mpr ?_)
  cases ha : s.authenticate auth with
  | error r => exact (always_pure r _ s).mpr (.inl rfl)
  | ok p =>
    obtain ⟨n, node⟩ := p
    have hid : s.Authentic auth n := ⟨node, ha⟩
    refine always_bind ((always_claimTaskForNode s n claimToken downloadToken).mono fun s' h ↦
      .inr ⟨n, hid, h⟩) ((wp_claimTaskForNode s n claimToken downloadToken).mono fun o s₁ h₁ ↦ ?_)
    cases o with
    | none => exact (always_pure _ _ s₁).mpr (.inr ⟨n, hid, .inl h₁.via.stopped⟩)
    | some p => exact (always_pure _ _ s₁).mpr (.inr ⟨n, hid, .inr ⟨p.1, h₁.via⟩⟩)

/-- A creation, stopped after its task hash. -/
theorem always_createTask (a : CreateTask) (hnew : s.UnusedTask a.tid)
    (hnode : s.HasNode a.assignedNode) :
    always (createTask a) (fun s' ↦ s'.task a.tid = none ∨
      Stopped (· = .createTask a) [a.tid] s s') s := by
  have hnone : s.task a.tid = none := hnew.task
  have hfile : (s.putFile a.blobPath a.payload).putFile a.blobPath (.aesGcm a.dek a.iv a.payload) =
      s.putFile a.blobPath (.aesGcm a.dek a.iv a.payload) := by
    simp only [Store.putFile, Function.update_idem]
  -- what is written before the task hash is no task yet
  simp only [createTask, Server.always_read_bind, Server.always_write_bind, always_pure, hfile]
  refine ⟨.inl hnone, .inl hnone, .inl hnone, .inl hnone, .inr ?_, .inr ?_, .inr ?_⟩
  · exact (Via.refl _ s).half (.created hnew hnode) (List.Subset.refl _)
  · exact (Via.refl _ s).half (.listed hnew hnode) (List.Subset.refl _)
  · have hcreated : Via (· = .createTask a) s (s.create a) := .single (.createTask a hnew) rfl
    exact hcreated.stopped

/-- A submission with a receipt that does not verify, stopped while it requeues its task. -/
theorem always_requeueTask_rejected {nodeId : NodeId} {node : Node} {tid : Tid} {task : Task}
    {token : Token} (hn : s.node nodeId = some node) (ht : s.task tid = some task)
    (ha : task.assignedNode = some nodeId) (hc : task.claimToken = some token)
    (hl : task.status.live = true) :
    always (requeueTask tid none) (Stopped (· = .reject nodeId tid) [] s) (s.strike nodeId) := by
  have hrejected : Via (· = .reject nodeId tid) s (s.reject nodeId tid task.runtime) :=
    .single (.reject hn ht ha hc) rfl
  have ht' : (s.strike nodeId).task tid = some task := ht
  refine (always_requeueTask none ht').mpr ⟨?_, ?_, ?_⟩
  · have hhalf : Half s tid [] (s.strike nodeId) := .struck hn
    exact (Via.refl _ s).half hhalf (List.nil_subset _)
  · exact (Via.refl _ s).half (.struckRequeued hn ht hl) (List.nil_subset _)
  · exact hrejected.stopped

end Programs

end TandemAio
