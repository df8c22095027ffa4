import TandemAio.Ownership

/-!
# Membership

The failover passes look at members of `nodes` only.  A member that stops reporting loses its
queue and its task to the next sweep; what belongs to a node that is no member stays where it is.
-/

open Reasoning Reasoning.Prog

namespace TandemAio

variable {s s' : Store} {l : Label}

/-! ## What a sweep reclaims -/

theorem Move.stale_pointer (hm : Move s l s') (hl : l.stale ∨ l.drain) {m : NodeId}
    (hp : s.pointer m = none) : s'.pointer m = none := by
  cases ht : s'.pointer m with
  | none => rfl
  | some t =>
    rcases hm.pointer_cases ht with hs | ⟨key, c, d, rfl⟩
    · rw [hp] at hs
      cases hs
    · rcases hl with hl | hl <;> exact hl.elim

theorem SameRoster.not_healthy {m : NodeId} (h : s.dead m) (exclude : Option NodeId)
    (runtime : Option Runtime) : m ∉ s.healthyNodeIds exclude runtime := by
  intro hmem
  obtain ⟨-, node, hn, hh⟩ := h
  obtain ⟨-, -, node', hn', hh', -⟩ := Store.mem_healthyNodeIds.mp hmem
  rw [hn, Option.some.injEq] at hn'
  rw [← hn', hh] at hh'
  cases hh'

/-- Draining gives nothing to a dead node. -/
theorem Move.drain_queue (hm : Move s l s') (hl : l.drain) {m : NodeId} (hdead : s.dead m)
    (hq : s.queue (.node m) = []) : s'.queue (.node m) = [] := by
  cases hm with
  | @discard key =>
    rw [Store.pop_queue, Function.update_apply]
    split
    · rename_i he
      rw [← he, hq, List.tail_nil]
    · exact hq
  | @rehome n tid rest task =>
    have hne : QueueKey.node m ≠
        homeQueue (s.healthyNodeIds (some n) (some task.runtime)).head? task.runtime := by
      intro he
      cases hd : (s.healthyNodeIds (some n) (some task.runtime)).head? with
      | none =>
        rw [hd] at he
        cases he
      | some n' =>
        rw [hd] at he
        cases he
        exact SameRoster.not_healthy hdead _ _ (List.mem_of_mem_head? hd)
    rw [Store.requeue_queue]
    refine (Function.update_of_ne hne _ _).trans ?_
    rw [Store.pop_queue, Function.update_apply]
    split
    · rename_i he
      rw [← he, hq, List.tail_nil]
    · exact hq
  | _ => exact hl.elim

/-- After a sweep no member that was dead has a current task or a task in its queue. -/
theorem wp_sweepStaleWork_reclaims (s : Store) :
    wp sweepStaleWork (fun _ s' ↦ ∀ m, s.dead m →
      s'.pointer m = none ∧ s'.queue (.node m) = []) s := by
  -- the stale pass clears the pointers
  have hstale : wp requeueStaleTasks (fun _ s' ↦ Via Label.stale s s' ∧
      ∀ m, s.dead m → s'.pointer m = none) s := by
    simp only [requeueStaleTasks, wp_bind, Server.wp_read, wp_getAllNodeIds]
    refine (wp_forEach (fun nodeIds s' ↦ Via Label.stale s s' ∧ (∀ n ∈ nodeIds, n ∈ s.nodes) ∧
      ∀ m, s.dead m → m ∉ nodeIds → s'.pointer m = none) (fun n nodeIds s₁ h ↦ ?_) ?_).mono
      fun _ s' h ↦ ⟨h.1, fun m hm ↦ h.2.2 m hm List.not_mem_nil⟩
    · obtain ⟨hv, hmem, hdone⟩ := h
      have hr := (hv.mono fun l hl ↦ Or.inl hl).sameRoster
      have hn : n ∈ s₁.nodes := by
        rw [hr.nodes]
        exact hmem n List.mem_cons_self
      rw [← hr.clock]
      refine (wp_requeueStaleNode hn).mono fun _ s₂ h₂ ↦ ⟨hv.trans h₂.1,
        fun m hm ↦ hmem m (List.mem_cons_of_mem _ hm), fun m hm hnot ↦ ?_⟩
      by_cases he : m = n
      · exact he ▸ h₂.2 (hr.dead (he ▸ hm))
      · refine h₂.1.invariant (I := fun s ↦ s.pointer m = none)
          (fun _ _ _ hl hmv hp ↦ hmv.stale_pointer (.inl hl) hp) (hdone m hm fun hin ↦ ?_)
        exact (List.mem_cons.mp hin).elim he hnot
    · refine ⟨.refl _ s, fun n hn ↦ (List.mem_insertionSort _).mp hn, fun m hm hnot ↦ ?_⟩
      exact absurd ((List.mem_insertionSort _).mpr hm.1) hnot
  -- draining empties the queues and sets no pointer
  have hdrain : ∀ s₁ : Store, wp drainDeadNodeQueues (fun _ s' ↦ Via Label.drain s₁ s' ∧
      ∀ m, s₁.dead m → s'.queue (.node m) = []) s₁ := by
    intro s₁
    simp only [drainDeadNodeQueues, wp_bind, Server.wp_read, wp_getAllNodeIds]
    refine (wp_forEach (fun nodeIds s' ↦ Via Label.drain s₁ s' ∧ (∀ n ∈ nodeIds, n ∈ s₁.nodes) ∧
      ∀ m, s₁.dead m → m ∉ nodeIds → s'.queue (.node m) = []) (fun n nodeIds s₂ h ↦ ?_) ?_).mono
      fun _ s' h ↦ ⟨h.1, fun m hm ↦ h.2.2 m hm List.not_mem_nil⟩
    · obtain ⟨hv, hmem, hdone⟩ := h
      have hr := (hv.mono fun l hl ↦ Or.inr hl).sameRoster
      have hn : n ∈ s₂.nodes := by
        rw [hr.nodes]
        exact hmem n List.mem_cons_self
      rw [← hr.clock]
      refine (wp_drainNode hn).mono fun _ s₃ h₃ ↦ ?_
      have hv₃ : Via Label.drain s₂ s₃ := h₃.1.mono fun _ hl ↦ hl.2.drain
      refine ⟨hv.trans hv₃, fun m hm ↦ hmem m (List.mem_cons_of_mem _ hm), fun m hm hnot ↦ ?_⟩
      by_cases he : m = n
      · exact he ▸ h₃.2 (hr.dead (he ▸ hm))
      · refine (hv₃.invariant (I := fun s ↦ s.dead m ∧ s.queue (.node m) = [])
          (fun _ _ _ hl hmv hp ↦
            ⟨(hmv.sameRoster (.inr hl)).dead hp.1, hmv.drain_queue hl hp.1 hp.2⟩)
          ⟨hr.dead hm, hdone m hm fun hin ↦ ?_⟩).2
        exact (List.mem_cons.mp hin).elim he hnot
    · refine ⟨.refl _ s₁, fun n hn ↦ (List.mem_insertionSort _).mp hn, fun m hm hnot ↦ ?_⟩
      exact absurd ((List.mem_insertionSort _).mpr hm.1) hnot
  rw [sweepStaleWork, wp_bind]
  refine hstale.mono fun _ s₁ h₁ ↦ (hdrain s₁).mono fun _ s₂ h₂ m hm ↦ ⟨?_, ?_⟩
  · exact h₂.1.invariant (I := fun s ↦ s.pointer m = none)
      (fun _ _ _ hl hmv hp ↦ hmv.stale_pointer (.inr hl) hp) (h₁.2 m hm)
  · exact h₂.2 m ((h₁.1.mono fun l hl ↦ Or.inl hl).sameRoster.dead hm)

/-! ## Work of members only -/

/-- What waits in a node's own queue, and what a node has claimed, is work of a member. -/
structure Homed (s : Store) : Prop where
  queued : ∀ n t, t ∈ s.queue (.node n) → n ∈ s.nodes
  live : ∀ t task n, s.task t = some task → task.status.live = true →
    task.assignedNode = some n → n ∈ s.nodes

/-- A move that gives work to a node gives it to a member, and a node that is deregistered has an
empty queue. -/
def Label.homes (s : Store) : Label → Prop
  | .createTask a => ∀ n, a.assignedNode = some n → n ∈ s.nodes
  | .take n _ _ _ _ => n ∈ s.nodes
  | .reject n _ => badReceiptThreshold ≤ s.badReceipts n + 1 → s.queue (.node n) = []
  | _ => True

/-- Members stay members, but for a node with too many bad receipts. -/
theorem Move.nodes_cases (hm : Move s l s') {n : NodeId} (hn : n ∈ s.nodes) :
    n ∈ s'.nodes ∨ ∃ t, l = .reject n t ∧ badReceiptThreshold ≤ s.badReceipts n + 1 := by
  cases hm with
  | register | heartbeat => exact .inl (List.mem_insert_of_mem hn)
  | @reject m _ t =>
    rw [Store.reject_nodes, Store.strike_nodes]
    split
    · rename_i hb
      by_cases he : n = m
      · exact .inr ⟨t, by rw [he], he ▸ hb⟩
      · exact .inl (List.mem_filter.mpr ⟨hn, by simpa using he⟩)
    · exact .inl hn
  | _ => exact .inl hn

theorem mem_of_update_push {queue : QueueKey → List Tid} {key key' : QueueKey} {t u : Tid}
    (h : t ∈ Function.update queue key (queue key ++ [u]) key') :
    t ∈ queue key' ∨ key' = key := by
  by_cases he : key' = key
  · exact .inr he
  · rw [Function.update_of_ne he] at h
    exact .inl h

theorem mem_of_update_tail {queue : QueueKey → List Tid} {key key' : QueueKey} {t : Tid}
    (h : t ∈ Function.update queue key (queue key).tail key') : t ∈ queue key' := by
  by_cases he : key' = key
  · subst he
    rw [Function.update_self] at h
    exact List.mem_of_mem_tail h
  · rwa [Function.update_of_ne he] at h

theorem homeQueue_eq_node {o : Option NodeId} {r : Runtime} {n : NodeId}
    (h : .node n = homeQueue o r) : o = some n := by
  cases o with
  | none => cases h
  | some m =>
    cases h
    rfl

/-- An id in a node's queue was there, is new, or comes back to a queue. -/
theorem Move.nodeQueue_cases (hm : Move s l s') {n : NodeId} {t : Tid}
    (ht : t ∈ s'.queue (.node n)) : t ∈ s.queue (.node n) ∨
      (∃ a, l = .createTask a ∧ a.assignedNode = some n) ∨ ∃ u, l.requeues = some (u, some n) := by
  cases hm with
  | createTask a =>
    rcases mem_of_update_push ht with h | h
    · exact .inl h
    · exact .inr (.inl ⟨a, rfl, homeQueue_eq_node h⟩)
  | @reclaim m node tid task =>
    rcases mem_of_update_push ht with h | h
    · exact .inl h
    · exact .inr (.inr ⟨tid, by rw [Label.requeues, homeQueue_eq_node h]⟩)
  | @rehome m tid rest task =>
    rcases mem_of_update_push ht with h | h
    · exact .inl (mem_of_update_tail h)
    · exact .inr (.inr ⟨tid, by rw [Label.requeues, homeQueue_eq_node h]⟩)
  | bounce =>
    rw [Store.requeue_queue] at ht
    rcases mem_of_update_push ht with h | h
    · exact .inl (mem_of_update_tail h)
    · cases h
  | reject =>
    rw [Store.reject_queue, Store.requeue_queue] at ht
    rcases mem_of_update_push ht with h | h
    · exact .inl h
    · cases h
  | discard => exact .inl (mem_of_update_tail ht)
  | take => exact .inl (mem_of_update_tail ht)
  | _ => exact .inl ht

/-- A requeued task goes to a member. -/
theorem Move.requeues_member (hm : Move s l s') {u : Tid} {n : NodeId}
    (hr : l.requeues = some (u, some n)) : n ∈ s.nodes := by
  have hhead : ∀ {m : NodeId} {runtime : Option Runtime} {t : Tid},
      some (t, (s.healthyNodeIds (some m) runtime).head?) = some (u, some n) → n ∈ s.nodes := by
    intro m runtime t h
    exact (Store.head?_healthyNodeIds (Prod.mk.inj (Option.some.inj h)).2).1
  cases hm with
  | reclaim | rehome => exact hhead hr
  | bounce | reject => cases (Prod.mk.inj (Option.some.inj hr)).2
  | _ => cases hr

theorem Homed.move (h : Homed s) (hcoh : Coherent s) (hm : Move s l s') (hl : l.homes s) :
    Homed s' where
  queued n t ht := by
    have hmem : n ∈ s.nodes := by
      rcases hm.nodeQueue_cases ht with hq | ⟨a, rfl, ha⟩ | ⟨u, hr⟩
      · exact h.queued n t hq
      · exact hl n ha
      · exact hm.requeues_member hr
    rcases hm.nodes_cases hmem with hn | ⟨u, rfl, hb⟩
    · exact hn
    · -- a node that is deregistered here has an empty queue
      rcases hm.nodeQueue_cases ht with hq | ⟨a, ha, -⟩ | ⟨u', hr⟩
      · rw [hl hb] at hq
        cases hq
      · cases ha
      · cases (Prod.mk.inj (Option.some.inj hr)).2
  live t task n ht hlive ha := by
    rcases hm.task_cases ht with ⟨hs, hno⟩ | ⟨a, rfl, rfl, rfl⟩ | ⟨task₀, hs, he⟩
    · rcases hm.nodes_cases (h.live t task n hs hlive ha) with hn | ⟨u, rfl, hb⟩
      · exact hn
      · -- the node points at one task only, and that one is given back
        cases hm with
        | reject _ hu hau hcu =>
          obtain ⟨-, -, -, n₁, hn₁, hp₁⟩ := (hcoh t task hs).live hlive
          obtain ⟨-, -, -, n₂, hn₂, hp₂⟩ := (hcoh u _ hu).live (hcoh.holder hu hcu)
          rw [ha, Option.some.injEq] at hn₁
          rw [hau, Option.some.injEq] at hn₂
          rw [← hn₁] at hp₁
          rw [← hn₂, hp₁, Option.some.injEq] at hp₂
          rcases hno with hne | ⟨key, hk⟩
          · exact absurd (by rw [Label.tid?, hp₂]) hne
          · cases hk
    · cases hlive
    · have hkeep : s'.nodes = s.nodes → task₀.assignedNode = some n → task₀.status.live = true →
          n ∈ s'.nodes := fun hn ha₀ hl₀ ↦ hn ▸ h.live t task₀ n hs hl₀ ha₀
      cases he with
      | lease =>
        cases hm
        exact hkeep rfl ha hlive
      | start =>
        cases hm with
        | start _ ht' _ hd =>
          obtain rfl := Option.some.inj (hs.symm.trans ht')
          exact hkeep rfl ha ((hcoh t _ hs).live_of_downloadToken (by
            rw [hd]
            exact Option.some_ne_none _))
      | claim m key c d =>
        obtain rfl : m = n := Option.some.inj ha
        cases hm
        exact hl
      | requeue | complete | fail => cases hlive

/-! ## Claims that find nothing -/

/-- A claim of `n` finds nothing: the queues it reads are empty, `n` has no live task, and no dead
member has one that could be given back. -/
structure Store.OffersNothing (s : Store) (n : NodeId) : Prop where
  queues : ∀ key, s.serves n key → s.queue key = []
  own : ∀ t task, s.pointer n = some t → s.task t = some task → task.status.live = false
  dead : ∀ m t task, s.dead m → s.pointer m = some t → s.task t = some task →
    task.status.live = false

/-- What a claim does when it finds nothing. -/
structure Untouched (s s' : Store) (n : NodeId) : Prop where
  nodes : s'.nodes = s.nodes
  task : s'.task = s.task
  offers : s'.OffersNothing n

theorem clearPointer_node {n m : NodeId} {node' : Node}
    (h : (s.clearPointer m).node n = some node') : ∃ node, s.node n = some node ∧
      node'.lastSeen = node.lastSeen ∧
      nodeUnassignedRuntimes node' = nodeUnassignedRuntimes node ∧
      (node'.currentTask = none ∨ node'.currentTask = node.currentTask) := by
  by_cases he : n = m
  · subst he
    rw [Store.clearPointer_node, Function.update_self, Option.map_eq_some_iff] at h
    obtain ⟨node, hn, rfl⟩ := h
    exact ⟨node, hn, rfl, rfl, .inl rfl⟩
  · rw [Store.clearPointer_node, Function.update_of_ne he] at h
    exact ⟨node', h, rfl, rfl, .inr rfl⟩

theorem Untouched.move {s₀ : Store} {n : NodeId} {c d : Token} {answer : Option Tid}
    (h : Untouched s₀ s n) (hm : Move s l s') (hl : l.ofClaim n c d answer) :
    Untouched s₀ s' n := by
  have hempty : ∀ {key : QueueKey} {t : Tid} {rest : List Tid}, s.serves n key →
      s.queue key ≠ t :: rest := by
    intro key t rest hs hq
    rw [h.offers.queues key hs] at hq
    cases hq
  cases hm with
  | @clearPointer m =>
    have hpointer : ∀ k t, (s.clearPointer m).pointer k = some t → s.pointer k = some t := by
      intro k t hp
      obtain ⟨node', hn', hc⟩ := Option.bind_eq_some_iff.mp hp
      obtain ⟨node, hn, -, -, hnone | hsame⟩ := clearPointer_node hn'
      · rw [hc] at hnone
        cases hnone
      · exact Option.bind_eq_some_iff.mpr ⟨node, hn, hsame ▸ hc⟩
    refine ⟨h.nodes, h.task, ⟨fun key hs ↦ h.offers.queues key ?_,
      fun t task hp ↦ h.offers.own t task (hpointer n t hp),
      fun k t task hdead hp ↦ h.offers.dead k t task ?_ (hpointer k t hp)⟩⟩
    · cases key with
      | node k => exact hs
      | unassigned runtime =>
        obtain ⟨node', hn', hr⟩ := hs
        obtain ⟨node, hn, -, hflags, -⟩ := clearPointer_node hn'
        exact ⟨node, hn, hflags ▸ hr⟩
    · obtain ⟨hmem, node', hn', hh⟩ := hdead
      obtain ⟨node, hn, hseen, -, -⟩ := clearPointer_node hn'
      refine ⟨hmem, node, hn, ?_⟩
      rw [isNodeHealthy, hseen] at hh
      rw [isNodeHealthy]
      exact hh
  | @reclaim m node t _ hdead hn hcur ht hlive =>
    have hp : s.pointer m = some t := Option.bind_eq_some_iff.mpr ⟨node, hn, hcur⟩
    rw [h.offers.dead m t _ hdead hp ht] at hlive
    cases hlive
  | @discard key =>
    refine ⟨h.nodes, h.task, ⟨fun key' hs ↦ ?_, h.offers.own, h.offers.dead⟩⟩
    have hnil : s.queue key' = [] := h.offers.queues key' hs
    rw [Store.pop_queue, Function.update_apply]
    split
    · rename_i he
      rw [← he, hnil, List.tail_nil]
    · exact hnil
  | bounce hs hq =>
    obtain rfl := hl
    exact absurd hq (hempty hs)
  | take hs _ _ hq =>
    obtain ⟨rfl, -⟩ := hl
    exact absurd hq (hempty hs)
  | _ => exact hl.elim

/-- A claim that finds nothing is answered with no task and changes no task. -/
theorem claim_offersNothing {n : NodeId} {auth : NodeAuth} {c d : Token} {r : Response}
    (hauth : s.Authentic auth n) (ho : s.OffersNothing n) (hr : Runs (claimTask auth c d) s r s') :
    Untouched s s' n ∧ ∀ answer, r ≠ .claimed answer := by
  rcases (wp_claimTask s auth c d).elim hr with ⟨hf, rfl⟩ | ⟨n', hauth', hans⟩
  · exact ⟨⟨rfl, rfl, ho⟩, fun answer h ↦ by rw [h] at hf; cases hf⟩
  · obtain rfl : n' = n := Option.some.inj (hauth'.nodeId.symm.trans hauth.nodeId)
    have hu : Untouched s s' n' := hans.via.invariant (I := fun s' ↦ Untouched s s' n')
      (fun _ _ _ hl hm h ↦ h.move hm hl) ⟨rfl, rfl, ho⟩
    refine ⟨hu, fun answer h ↦ ?_⟩
    obtain ⟨task, ht, hlive, -, node, hn, hcur⟩ := hans.answers answer h
    have hp : s'.pointer n' = some answer.tid := Option.bind_eq_some_iff.mpr ⟨node, hn, hcur⟩
    rw [hu.offers.own answer.tid task hp ht] at hlive
    cases hlive

section Runs

variable [Sha256] {tr : List Entry} {r : Response}

/-- A step that gives work to a node that is no member, or deregisters a node with work in its
queue. -/
def Entry.strands (e : Entry) : Prop :=
  (∃ a n, e.action = .createTask a ∧ a.assignedNode = some n ∧ n ∉ e.before.nodes) ∨
  (∃ auth c d n, e.action = .claim auth c d ∧ e.before.Authentic auth n ∧ n ∉ e.before.nodes ∧
    ¬e.before.OffersNothing n) ∨
  ∃ auth tid claimToken body n, e.action = .result auth tid claimToken body ∧
    e.before.Authentic auth n ∧ e.before.rejects auth tid claimToken body ∧
    badReceiptThreshold ≤ e.before.badReceipts n + 1 ∧ e.before.queue (.node n) ≠ []

theorem Submitted.homed {auth : NodeAuth} {tid : Tid} {claimToken : Option Token}
    {body : ResultBody} (h : Submitted s auth tid claimToken body r s') (hs : Homed s)
    (hcoh : Coherent s) (hempty : ∀ n, s.Authentic auth n → s.rejects auth tid claimToken body →
      badReceiptThreshold ≤ s.badReceipts n + 1 → s.queue (.node n) = []) : Homed s' := by
  have hv := h.via
  have hgranted : r.refusal = false → Homed s' := fun hr ↦ by
    refine (hv.invariant (I := fun s ↦ Coherent s ∧ Homed s)
      (fun s₁ l s₂ hl hm h₁ ↦ ⟨h₁.1.move hm, h₁.2.move h₁.1 hm ?_⟩) ⟨hcoh, hs⟩).2
    cases l with
    | createTask a => cases hl.createTask
    | take =>
      obtain ⟨_, ha, -⟩ := hl.take
      cases ha
    | reject =>
      obtain ⟨_, _, _, -, -, hr', -⟩ := hl.reject
      rw [hr] at hr'
      cases hr'
    | _ => trivial
  cases h with
  | refused => exact hs
  | rejected hmay hrej =>
    obtain ⟨c, hc, -⟩ := hmay.token
    obtain ⟨node, hauth⟩ := hmay.auth
    have hm := Move.reject (Store.authenticate_ok hauth).2.1 hmay.stored hmay.assigned hc
    exact hs.move hcoh hm (hempty _ hmay.auth ⟨_, _, _, hmay, hrej⟩)
  | completed | failed => exact hgranted rfl

theorem Run.homed (h : Run tr s) (hstrands : ∀ e ∈ tr, ¬ e.strands) : Homed s := by
  induction h with
  | start => exact ⟨fun _ _ ht ↦ (by cases ht), fun _ _ _ ht ↦ (by cases ht)⟩
  | @step tr s a r s' hr hf hs ih =>
    have hs₀ := ih fun e he ↦ hstrands e (List.mem_append_left _ he)
    have hno := hstrands ⟨s, a, r, s'⟩ (List.mem_append_right _ List.mem_cons_self)
    have hcoh := hr.coherent
    have hv := Runs.via (hr.newTo hf) hs
    -- moves that leave the members alone, and give work to members only
    have hmoves : (∀ l s₁, a.may s r l → s₁.nodes = s.nodes → l.homes s₁) →
        (∀ l s₁ s₂, a.may s r l → Move s₁ l s₂ → s₂.nodes = s₁.nodes) → Homed s' := by
      intro hhomes hnodes
      refine (hv.invariant (I := fun s₁ ↦ Coherent s₁ ∧ Homed s₁ ∧ s₁.nodes = s.nodes)
        (fun s₁ l s₂ hl hm h₁ ↦ ⟨h₁.1.move hm, h₁.2.1.move h₁.1 hm (hhomes l s₁ hl h₁.2.2),
          (hnodes l s₁ s₂ hl hm).trans h₁.2.2⟩) ⟨hcoh, hs₀, rfl⟩).2.1
    -- moves that give no work at all
    have hquiet : (∀ l s₁, a.may s r l → l.homes s₁) → Homed s' := fun hhomes ↦
      (hv.invariant (I := fun s₁ ↦ Coherent s₁ ∧ Homed s₁)
        (fun s₁ l s₂ hl hm h₁ ↦ ⟨h₁.1.move hm, h₁.2.move h₁.1 hm (hhomes l s₁ hl)⟩)
        ⟨hcoh, hs₀⟩).2
    cases a with
    | createTask a =>
      refine hmoves (fun l s₁ hl hn ↦ ?_) fun l s₁ s₂ hl hm ↦ ?_
      · obtain rfl : l = .createTask a := hl
        intro n ha
        rw [hn]
        by_contra hnot
        exact hno (.inl ⟨a, n, rfl, ha, hnot⟩)
      · obtain rfl : l = .createTask a := hl
        cases hm
        rfl
    | claim auth c d =>
      by_cases hnothing : ∃ n, s.Authentic auth n ∧ s.OffersNothing n
      · -- a claim that finds nothing takes nothing
        obtain ⟨n, hauth, ho⟩ := hnothing
        refine (hv.invariant (I := fun s₁ ↦ Coherent s₁ ∧ Homed s₁ ∧ Untouched s s₁ n)
          (fun s₁ l s₂ hl hm h₁ ↦ ?_) ⟨hcoh, hs₀, rfl, rfl, ho⟩).2.1
        obtain ⟨m, hm', hl⟩ := hl
        obtain rfl : m = n := Option.some.inj (hm'.nodeId.symm.trans hauth.nodeId)
        refine ⟨h₁.1.move hm, h₁.2.1.move h₁.1 hm ?_, h₁.2.2.move hm hl⟩
        cases hm with
        | take hserves _ _ hq =>
          obtain ⟨rfl, -⟩ := hl
          rw [h₁.2.2.offers.queues _ hserves] at hq
          cases hq
        | clearPointer | reclaim | discard | bounce => trivial
        | _ => exact hl.elim
      · refine hmoves (fun l s₁ hl hn ↦ ?_) fun l s₁ s₂ hl hm ↦ ?_
        · cases l with
          | take n =>
            obtain ⟨auth', ha, hauth, -⟩ := hl.take
            cases ha
            show n ∈ s₁.nodes
            rw [hn]
            by_contra hnot
            exact hno (.inr (.inl ⟨auth, c, d, n, rfl, hauth, hnot,
              fun ho ↦ hnothing ⟨n, hauth, ho⟩⟩))
          | createTask => cases hl.createTask
          | reject =>
            obtain ⟨_, _, _, ha, -⟩ := hl.reject
            cases ha
          | _ => trivial
        · obtain ⟨n, -, hl⟩ := hl
          cases hm with
          | clearPointer | reclaim | discard | bounce | take => rfl
          | _ => exact hl.elim
    | result auth tid claimToken body =>
      refine ((wp_submitTaskResult s auth tid claimToken body).elim hs).homed hs₀ hcoh
        fun n hauth hrej hb ↦ ?_
      by_contra hne
      exact hno (.inr (.inr ⟨auth, tid, claimToken, body, n, rfl, hauth, hrej, hb, hne⟩))
    | register | createJob | download | health | availableNodes | sweep | refreshJob | tick
    | expireTask =>
      refine hquiet fun l s₁ hl ↦ ?_
      cases l with
      | createTask => cases hl.createTask
      | take =>
        obtain ⟨_, ha, -⟩ := hl.take
        cases ha
      | reject =>
        obtain ⟨_, _, _, ha, -⟩ := hl.reject
        cases ha
      | _ => trivial

/-- In runs in which no step gives work to a node outside `nodes`, or deregisters a node with work
in its queue, all queued and live work of nodes is that of members; so once such a node is dead,
the next sweep takes its queue and its current task. -/
theorem member_work_only (h : Run tr s) (hstrands : ∀ e ∈ tr, ¬ e.strands) :
    (∀ n t, t ∈ s.queue (.node n) → n ∈ s.nodes) ∧
    (∀ t task n, s.task t = some task → task.status.live = true →
      task.assignedNode = some n → n ∈ s.nodes ∧ s.pointer n = some t) ∧
    wp sweepStaleWork (fun _ s' ↦ ∀ n node, n ∈ s.nodes → s.node n = some node →
      isNodeHealthy node s.clock = false → s'.pointer n = none ∧ s'.queue (.node n) = []) s := by
  have hhomed := h.homed hstrands
  refine ⟨hhomed.queued, fun t task n ht hlive ha ↦ ⟨hhomed.live t task n ht hlive ha, ?_⟩, ?_⟩
  · obtain ⟨-, -, -, n', ha', hp⟩ := (h.coherent t task ht).live hlive
    obtain rfl := Option.some.inj (ha.symm.trans ha')
    exact hp
  · exact (wp_sweepStaleWork_reclaims s).mono fun _ s' hs' n node hn hnode hh ↦
      hs' n ⟨hn, node, hnode, hh⟩

end Runs

/-- A check of an entry that rules out that it strands work. -/
def Entry.homesWork (e : Entry) : Bool :=
  match e.action with
  | .createTask a => a.assignedNode.all (decide <| · ∈ e.before.nodes)
  | .claim auth _ _ => auth.nodeId.all (decide <| · ∈ e.before.nodes)
  | .result .. => false
  | _ => true

theorem Entry.not_strands [Sha256] {e : Entry} (h : e.homesWork = true) : ¬ e.strands := by
  rintro (⟨a, n, ha, hn, hnot⟩ | ⟨auth, c, d, n, ha, hauth, hnot⟩ | ⟨auth, tid, c, body, n, ha, -⟩)
  · rw [homesWork, ha] at h
    simp only [hn, Option.all_some, decide_eq_true_eq] at h
    exact hnot h
  · rw [homesWork, ha] at h
    simp only [hauth.nodeId, Option.all_some, decide_eq_true_eq] at h
    exact hnot.1 h
  · rw [homesWork, ha] at h
    cases h

open Sample in
theorem member_work_only_claimed :
    let tr := performed 200 server [.tick second, join nodeA keyA none, create task1 (some nodeA),
      .claim authA claim1 download1, create task2 (some nodeA)]
    let s := lastStore server tr
    s.queue (.node nodeA) = [task2] ∧ (s.task task1).map (·.status) = some .claimed ∧
      ∀ n t, t ∈ s.queue (.node n) → n ∈ s.nodes := by
  refine ⟨by decide +kernel, by decide +kernel, (member_work_only (run_performed
    (by decide +kernel) (by decide +kernel)) fun e he ↦ e.not_strands ?_).1⟩
  exact List.all_eq_true.mp (show List.all (performed 200 server [.tick second,
    join nodeA keyA none, create task1 (some nodeA), .claim authA claim1 download1,
    create task2 (some nodeA)]) Entry.homesWork = true by decide +kernel) e he

open Sample in
/-- The fifth bad receipt of `nodeA` deregisters it while `task2` waits in its queue, and no sweep
takes it from there. -/
theorem deregistered_queue_strands :
    let actions := [.tick second, join nodeA keyA none, create task1 (some nodeA)] ++
      badAttempt claim1 download1 ++ badAttempt claim2 download2 ++ badAttempt claim3 download3 ++
      badAttempt claim4 download4 ++ [.claim authA claim5 download5, .availableNodes none,
        create task2 (some nodeA), .result authA task1 (some claim5) badReceipt]
    let tr := performed 200 server actions
    let s := lastStore server tr
    let s' := lastStore server (performed 200 server (actions ++ [.tick (1000 * second), .sweep]))
    Run tr s ∧ (tr[12]?.map (·.response)) = some (.nodeIds [nodeA]) ∧
      s.queue (.node nodeA) = [task2] ∧ (s.task task2).map (·.status) = some .queued ∧
      nodeA ∉ s.nodes ∧ s'.queue (.node nodeA) = [task2] :=
  ⟨run_performed (by decide +kernel) (by decide +kernel), by decide +kernel, by decide +kernel,
    by decide +kernel, by decide +kernel, by decide +kernel⟩

end TandemAio
