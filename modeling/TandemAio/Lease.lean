import TandemAio.Coherence

/-!
# Leases and last reports

A node's `last_seen` and the lease of the task it holds are written by different operations.  The
lease always reaches past the moment at which the node counts as dead.
-/

open Reasoning Reasoning.Prog

namespace TandemAio

/-- The node whose `last_seen` a move sets. -/
def Label.reports : Label → Option NodeId
  | .register a => some a.nodeId
  | .heartbeat nodeId | .take nodeId .. | .complete nodeId .. | .fail nodeId _ => some nodeId
  | _ => none

/-- No node has reported in the future, and the lease of a live task has been extended since its
node last reported. -/
structure Leased (s : Store) : Prop where
  seen : ∀ n node, s.node n = some node → node.lastSeen ≤ s.clock
  lease : ∀ t task, s.task t = some task → task.status.live = true →
    ∃ expires, task.leaseExpiresAt = some expires ∧ ∀ n node, task.assignedNode = some n →
      s.node n = some node → node.lastSeen + taskLeaseSeconds ≤ expires

/-- The clock does not go back, and no node reports without its lease being extended. -/
def Label.punctual (s : Store) : Label → Prop
  | .tick now => s.clock ≤ now
  | .heartbeat _ => False
  | _ => True

section Moves

variable {s s' : Store} {l : Label}

theorem Move.clock_le (hm : Move s l s') (hl : ∀ now, l = .tick now → s.clock ≤ now) :
    s.clock ≤ s'.clock := by
  cases hm with
  | tick now => exact hl now rfl
  | _ => exact le_refl s.clock

/-- A node after a move has reported when it had, or at the move. -/
theorem Move.lastSeen_cases (hm : Move s l s') {n : NodeId} {node' : Node}
    (hn : s'.node n = some node') : (l.reports = some n ∧ node'.lastSeen = s.clock) ∨
      ∃ node, s.node n = some node ∧ node'.lastSeen = node.lastSeen := by
  cases hm with
  | @register a owner hnew =>
    by_cases he : n = a.nodeId
    · subst he
      rw [Store.addMember_node, Store.putNode_node, Function.update_self,
        Option.some.injEq] at hn
      exact .inl ⟨rfl, by rw [← hn]; rfl⟩
    · rw [Store.addMember_node, Store.putNode_node, Function.update_of_ne he] at hn
      exact .inr ⟨node', hn, rfl⟩
  | heartbeat | take | complete | fail =>
    rcases update_map_cases hn with ⟨rfl, node, hs, rfl⟩ | hs
    · exact .inl ⟨rfl, rfl⟩
    · exact .inr ⟨node', hs, rfl⟩
  | clearPointer | reclaim =>
    rcases update_map_cases hn with ⟨rfl, node, hs, rfl⟩ | hs
    · exact .inr ⟨node, hs, rfl⟩
    · exact .inr ⟨node', hs, rfl⟩
  | _ => exact .inr ⟨node', hn, rfl⟩

theorem Leased.seen_move (h : Leased s) (hm : Move s l s')
    (hl : ∀ now, l = .tick now → s.clock ≤ now) (n : NodeId) (node : Node)
    (hn : s'.node n = some node) : node.lastSeen ≤ s'.clock := by
  have hclock := hm.clock_le hl
  rcases hm.lastSeen_cases hn with ⟨-, hseen⟩ | ⟨node₀, hs, hseen⟩
  · rw [hseen]
    exact hclock
  · rw [hseen]
    exact (h.seen n node₀ hs).trans hclock

/-- The task of a node that reports while it holds a live task is the one the node ends. -/
theorem Move.reports_idle (hm : Move s l s') (hcoh : Coherent s) (hl : l.punctual s) {t : Tid}
    {task : Task} (ht : s.task t = some task) (hlive : task.status.live = true) {n : NodeId}
    (ha : task.assignedNode = some n) (hreports : l.reports = some n) : l.tid? = some t := by
  obtain ⟨-, -, -, n', ha', hp⟩ := (hcoh t task ht).live hlive
  rw [ha, Option.some.injEq] at ha'
  subst ha'
  cases hm with
  | register a owner hnew =>
    obtain rfl := Option.some.inj hreports
    rw [Store.pointer, hnew.node] at hp
    cases hp
  | heartbeat => exact hl.elim
  | take _ hn hidle =>
    obtain rfl := Option.some.inj hreports
    rw [Store.pointer, hn, Option.bind_some, hidle] at hp
    cases hp
  | complete _ _ ht' ha' hc' | fail _ _ ht' ha' hc' =>
    obtain rfl := Option.some.inj hreports
    have hp' := (hcoh _ _ ht').pointer ha' hc'
    rw [hp, Option.some.injEq] at hp'
    rw [hp']
    rfl
  | _ => cases hreports

/-- An extended lease reaches past what any node has reported. -/
theorem Leased.extended (h : Leased s) (hm : Move s l s') (hclock : s'.clock = s.clock)
    (hl : ∀ now, l = .tick now → s.clock ≤ now) (n : NodeId) (node : Node)
    (hn : s'.node n = some node) :
    node.lastSeen + taskLeaseSeconds ≤ s.clock + taskLeaseSeconds := by
  have hseen := h.seen_move hm hl n node hn
  rw [hclock] at hseen
  exact Int.add_le_add_right hseen _

theorem Leased.move (h : Leased s) (hcoh : Coherent s) (hm : Move s l s') (hl : l.punctual s) :
    Leased s' where
  seen := h.seen_move hm fun now hnow ↦ by
    subst hnow
    exact hl
  lease t task' ht' hlive' := by
    have htick : ∀ now, l = .tick now → s.clock ≤ now := by
      rintro now rfl
      exact hl
    rcases hm.task_cases ht' with ⟨ht, hno⟩ | ⟨a, rfl, rfl, rfl⟩ | ⟨task, ht, he⟩
    · obtain ⟨expires, hexpires, hle⟩ := h.lease t task' ht hlive'
      refine ⟨expires, hexpires, fun n node' ha hn ↦ ?_⟩
      rcases hm.lastSeen_cases hn with ⟨hreports, -⟩ | ⟨node, hs, hseen⟩
      · -- a node that reports here holds no other task
        have htid := hm.reports_idle hcoh hl ht hlive' ha hreports
        rcases hno with hne | ⟨key, rfl⟩
        · exact absurd htid hne
        · cases hreports
      · rw [hseen]
        exact hle n node ha hs
    · cases hlive'
    · have hnew : s'.clock = s.clock → task'.leaseExpiresAt = some (s.clock + taskLeaseSeconds) →
          ∃ expires, task'.leaseExpiresAt = some expires ∧ ∀ n node,
            task'.assignedNode = some n → s'.node n = some node →
            node.lastSeen + taskLeaseSeconds ≤ expires := fun hclock hexpires ↦
        ⟨_, hexpires, fun n node _ hn ↦ h.extended hm hclock htick n node hn⟩
      cases he with
      | lease | claim | start =>
        cases hm
        exact hnew rfl rfl
      | requeue | complete | fail => cases hlive'

/-- A report of a node shortens no lease but that of the task it points at. -/
theorem Leased.heartbeat (h : Leased s) (hcoh : Coherent s) {nodeId : NodeId} {s₁ : Store}
    (hm : Move s (.heartbeat nodeId) s₁) (t : Tid) (task : Task) (ht : s.task t = some task)
    (hlive : task.status.live = true) (hp : s.pointer nodeId ≠ some t) :
    ∃ expires, task.leaseExpiresAt = some expires ∧
      ∀ n node, task.assignedNode = some n → s₁.node n = some node →
        node.lastSeen + taskLeaseSeconds ≤ expires := by
  obtain ⟨expires, hexpires, hle⟩ := h.lease t task ht hlive
  refine ⟨expires, hexpires, fun n node' ha hn' ↦ ?_⟩
  rcases hm.lastSeen_cases hn' with ⟨hreports, -⟩ | ⟨node₀, hs, hseen⟩
  · obtain rfl := Option.some.inj hreports
    obtain ⟨-, -, -, n', ha', hp'⟩ := (hcoh t task ht).live hlive
    rw [ha, Option.some.injEq] at ha'
    rw [← ha'] at hp'
    exact absurd hp' hp
  · rw [hseen]
    exact hle n node₀ ha hs

/-- The first write of `health` may leave a lease too short for its node, and its last extends
it. -/
theorem Leased.health [Sha256] (h : Leased s) (hcoh : Coherent s) (auth : NodeAuth) :
    wp (health auth) (fun _ s' ↦ Leased s') s := by
  rw [TandemAio.health, wp_bind, wp_requireNodeAuth]
  cases hauth : s.authenticate auth with
  | error r => exact (wp_pure r _ s).mpr h
  | ok p =>
    obtain ⟨nodeId, node⟩ := p
    obtain ⟨-, hn, -⟩ := Store.authenticate_ok hauth
    simp only [wp_bind, Server.wp_read, Server.wp_write, wp_extendTaskLease, wp_pure]
    have hm : Move s (.heartbeat nodeId)
        ((s.modifyNode nodeId fun node ↦ { node with lastSeen := s.clock }).addMember nodeId) :=
      .heartbeat hn
    generalize hs₁ : (s.modifyNode nodeId fun node ↦
      { node with lastSeen := s.clock }).addMember nodeId = s₁ at hm ⊢
    have htask : s₁.task = s.task := by rw [← hs₁]; rfl
    have hclock : s₁.clock = s.clock := by rw [← hs₁]; rfl
    have hpointer : (s₁.node nodeId).bind (·.currentTask) = s.pointer nodeId := by
      rw [← hs₁, Store.addMember_node, Store.modifyNode_node, Function.update_self, hn,
        Option.map_some, Store.pointer, hn]
      rfl
    have hseen := h.seen_move hm fun now hnow ↦ by cases hnow
    have hlease := h.heartbeat hcoh hm
    rw [hpointer]
    cases hp : s.pointer nodeId with
    | none =>
      refine ⟨hseen, fun t task ht hlive ↦ hlease t task (htask ▸ ht) hlive ?_⟩
      rw [hp]
      exact fun h ↦ by cases h
    | some tid =>
      dsimp only
      split
      · -- the lease of the task it points at is extended
        refine ⟨hseen, fun t task' ht' hlive ↦ ?_⟩
        by_cases he : t = tid
        · subst he
          rw [Store.extendLease_task, Function.update_self] at ht'
          obtain ⟨task, ht, rfl⟩ := Option.map_eq_some_iff.mp ht'
          exact ⟨_, rfl, fun n node _ hnode ↦
            Int.add_le_add_right (hseen n node hnode) _⟩
        · rw [Store.extendLease_task, Function.update_of_ne he, htask] at ht'
          refine hlease t task' ht' hlive ?_
          rw [hp]
          exact fun h ↦ he (Option.some.inj h).symm
      · rename_i hdead
        refine ⟨hseen, fun t task ht hlive ↦ hlease t task (htask ▸ ht) hlive ?_⟩
        rw [hp]
        rintro h
        obtain rfl := Option.some.inj h
        rw [ht] at hdead
        exact hdead hlive

end Moves

section Runs

variable [Sha256] {tr : List Entry} {s : Store}

/-- The clock is never set back. -/
def Entry.forward (e : Entry) : Bool :=
  match e.action with
  | .tick now => e.before.clock ≤ now
  | _ => true

theorem Run.leased (h : Run tr s) (hforward : ∀ e ∈ tr, e.forward) : Leased s := by
  induction h with
  | start => exact ⟨fun _ _ hn ↦ (by cases hn), fun _ _ ht ↦ (by cases ht)⟩
  | @step tr s a r s' hr hf hs ih =>
    have hleased := ih fun e he ↦ hforward e (List.mem_append_left _ he)
    have htick := hforward ⟨s, a, r, s'⟩ (List.mem_append_right _ List.mem_cons_self)
    have hv := Runs.via (hr.newTo hf) hs
    have hmoves : (∀ l s₁, a.may s r l → l.punctual s₁) → Leased s' := fun hpunctual ↦
      (hv.invariant (I := fun s₁ ↦ Coherent s₁ ∧ Leased s₁)
        (fun s₁ l s₂ hl hm h₁ ↦ ⟨h₁.1.move hm, h₁.2.move h₁.1 hm (hpunctual l s₁ hl)⟩)
        ⟨hr.coherent, hleased⟩).2
    cases a with
    | health auth => exact (hleased.health hr.coherent auth).elim hs
    | tick now =>
      refine (hv.invariant (I := fun s₁ ↦ Coherent s₁ ∧ Leased s₁ ∧ s₁.clock ≤ now)
        (fun s₁ l s₂ hl hm h₁ ↦ ?_) ⟨hr.coherent, hleased, of_decide_eq_true htick⟩).2.1
      obtain rfl : l = .tick now := hl
      refine ⟨h₁.1.move hm, h₁.2.1.move h₁.1 hm h₁.2.2, ?_⟩
      cases hm
      exact le_refl now
    | _ =>
      refine hmoves fun l s₁ hl ↦ ?_
      cases l with
      | heartbeat n =>
        obtain ⟨auth, ha, -⟩ := hl.heartbeat
        cases ha
      | tick now => cases hl.tick
      | _ => trivial

/-- The lease of a task that a node holds ends after the node is taken for dead. -/
theorem holder_lease_live (h : Run tr s) (hforward : ∀ e ∈ tr, e.forward) {t : Tid} {task : Task}
    (ht : s.task t = some task) (hlive : task.status.live = true) :
    ∃ n node expires, task.assignedNode = some n ∧ s.node n = some node ∧
      task.leaseExpiresAt = some expires ∧
      (∀ now, isNodeHealthy node now = true → now < expires) ∧
      ∀ now, expires ≤ now → isNodeHealthy node now = false := by
  obtain ⟨-, -, -, n, ha, hp⟩ := (h.coherent t task ht).live hlive
  obtain ⟨node, hn, -⟩ := Option.bind_eq_some_iff.mp hp
  obtain ⟨expires, hexpires, hle⟩ := (h.leased hforward).lease t task ht hlive
  have hlong : nodeStaleSeconds < taskLeaseSeconds := by decide
  have hearly : ∀ now, isNodeHealthy node now = true → now < expires := by
    intro now hhealthy
    rw [isNodeHealthy, Bool.and_eq_true, decide_eq_true_eq, decide_eq_true_eq] at hhealthy
    calc now ≤ node.lastSeen + nodeStaleSeconds := Int.le_add_of_sub_left_le hhealthy.2
      _ < node.lastSeen + taskLeaseSeconds := Int.add_lt_add_left hlong _
      _ ≤ expires := hle n node ha hn
  refine ⟨n, node, expires, ha, hn, hexpires, hearly, fun now hnow ↦ ?_⟩
  by_contra hhealthy
  exact absurd (hearly now (by simpa using hhealthy)) (not_lt.mpr hnow)

end Runs

open Sample in
/-- A node claims a task and reports again. -/
theorem holder_lease_live_claimed :
    let tr := performed 200 server [.tick second, join nodeA keyA none, create task1 (some nodeA),
      .claim authA claim1 download1, .tick (4 * second), .health authA]
    ((lastStore server tr).task task1).map (·.leaseExpiresAt) = some (some (34 * second)) ∧
      ∃ n node expires, (lastStore server tr).node n = some node ∧
        (∀ now, isNodeHealthy node now = true → now < expires) ∧
        ∀ now, expires ≤ now → isNodeHealthy node now = false := by
  intro tr
  have hrun : Run tr (lastStore server tr) := run_performed (by decide +kernel) (by decide +kernel)
  have hstatus : ((lastStore server tr).task task1).map (fun task ↦
      (task.leaseExpiresAt, task.status.live)) = some (some (34 * second), true) := by
    decide +kernel
  obtain ⟨task, ht, hboth⟩ := Option.map_eq_some_iff.mp hstatus
  obtain ⟨hexpires, hlive⟩ := Prod.mk.inj hboth
  have hforward : ∀ e ∈ tr, e.forward := List.all_eq_true.mp (by decide +kernel)
  obtain ⟨n, node, expires, -, hn, -, hlease⟩ := holder_lease_live hrun hforward ht hlive
  exact ⟨by rw [ht]; exact congrArg some hexpires, n, node, expires, hn, hlease⟩

end TandemAio
