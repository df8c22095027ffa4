import TandemAio.Membership

/-!
# Deregistration

A node with too many bad receipts is taken from `nodes` and nothing else is done to it: its hash,
its token and its queue stay.  It is out for as long as it reports no health, is offered no work
and is planned none.
-/

open Reasoning Reasoning.Prog

namespace TandemAio

variable {s s' : Store} {l : Label}

/-- The step at which a node loses its membership for too many bad receipts. -/
def Entry.deregisters [Sha256] (e : Entry) (n : NodeId) : Prop :=
  ∃ auth tid claimToken body, e.action = .result auth tid claimToken body ∧
    e.before.Authentic auth n ∧ e.before.rejects auth tid claimToken body ∧
    badReceiptThreshold ≤ e.before.badReceipts n + 1

/-- A step by which a node comes back: its health report, its claim when there is work, or a task
created for it. -/
def Entry.revives (e : Entry) (n : NodeId) : Prop :=
  (∃ auth, e.action = .health auth ∧ e.before.Authentic auth n) ∨
  (∃ auth c d, e.action = .claim auth c d ∧ e.before.Authentic auth n ∧
    ¬ e.before.OffersNothing n) ∨
  ∃ a, e.action = .createTask a ∧ a.assignedNode = some n

theorem Move.nodes_new (hm : Move s l s') {n : NodeId} (hn : n ∈ s'.nodes) :
    n ∈ s.nodes ∨ (s.node n = none ∧ ∃ a, l = .register a) ∨ l = .heartbeat n := by
  cases hm with
  | register a owner hnew =>
    rcases List.mem_insert_iff.mp hn with rfl | hn
    · exact .inr (.inl ⟨hnew.node, a, rfl⟩)
    · exact .inl hn
  | heartbeat =>
    rcases List.mem_insert_iff.mp hn with rfl | hn
    · exact .inr (.inr rfl)
    · exact .inl hn
  | reject =>
    rw [Store.reject_nodes, Store.strike_nodes] at hn
    split at hn
    · exact .inl (List.mem_filter.mp hn).1
    · exact .inl hn
  | _ => exact .inl hn

/-- What a step that does not revive an outsider leaves: it is still out, nothing is put in its
queue, and no task is newly assigned to it. -/
structure StaysOut (s s' : Store) (n : NodeId) : Prop where
  member : n ∉ s'.nodes
  node : s'.node n ≠ none
  queued : ∀ t ∈ s'.queue (.node n), t ∈ s.queue (.node n)
  assigned : ∀ t task', s'.task t = some task' → task'.assignedNode = some n →
    ∃ task, s.task t = some task ∧ task.assignedNode = some n

theorem StaysOut.move {s₀ : Store} {n : NodeId} (h : StaysOut s₀ s n) (hm : Move s l s')
    (hcreate : ∀ a, l = .createTask a → a.assignedNode ≠ some n) (hbeat : l ≠ .heartbeat n)
    (htake : ∀ key t c d, l ≠ .take n key t c d) : StaysOut s₀ s' n where
  member hn := by
    rcases hm.nodes_new hn with hs | ⟨hnone, -⟩ | hb
    · exact h.member hs
    · exact h.node hnone
    · exact hbeat hb
  node := hm.node_stays h.node
  queued t ht := by
    rcases hm.nodeQueue_cases ht with hq | ⟨a, ha, hn⟩ | ⟨u, hr⟩
    · exact h.queued t hq
    · exact absurd hn (hcreate a ha)
    · exact absurd (hm.requeues_member hr) h.member
  assigned t task' ht ha := by
    rcases hm.task_cases ht with ⟨hs, -⟩ | ⟨a, rfl, rfl, rfl⟩ | ⟨task, hs, he⟩
    · exact h.assigned t task' hs ha
    · exact absurd ha (hcreate a rfl)
    · cases he with
      | lease | start | complete | fail => exact h.assigned t task hs ha
      | requeue hr =>
        have hdest : l.requeues = some (t, some n) := hr.trans (by rw [← ha]; rfl)
        exact absurd (hm.requeues_member hdest) h.member
      | claim m key c d =>
        obtain rfl : m = n := Option.some.inj ha
        exact absurd rfl (htake key t c d)

section Runs

variable [Sha256] {tr₁ tr₂ : List Entry} {e : Entry} {n : NodeId}

theorem Entry.staysOut {e : Entry} (hnew : e.action.NewTo e.before)
    (hr : Runs (handle e.action) e.before e.response e.after) (hrev : ¬ e.revives n)
    (hn : n ∉ e.before.nodes) (hnode : e.before.node n ≠ none) :
    StaysOut e.before e.after n := by
  have hv := Runs.via hnew hr
  have hrefl : StaysOut e.before e.before n :=
    ⟨hn, hnode, fun _ ht ↦ ht, fun t task ht ha ↦ ⟨task, ht, ha⟩⟩
  by_cases hclaim : ∃ auth c d, e.action = .claim auth c d ∧ e.before.Authentic auth n
  · -- the node's own claim finds nothing
    obtain ⟨auth, c, d, ha, hauth⟩ := hclaim
    have ho : e.before.OffersNothing n := by
      by_contra hno
      exact hrev (.inr (.inl ⟨auth, c, d, ha, hauth, hno⟩))
    rw [ha] at hr
    obtain ⟨hu, -⟩ := claim_offersNothing hauth ho hr
    refine ⟨hu.nodes ▸ hn, ?_, fun t ht ↦ ?_, fun t task' ht ha' ↦ ⟨task', hu.task ▸ ht, ha'⟩⟩
    swap
    · rw [hu.offers.queues (.node n) rfl] at ht
      cases ht
    exact hv.invariant (I := fun s ↦ s.node n ≠ none) (fun _ _ _ _ hm h ↦ hm.node_stays h) hnode
  · refine hv.invariant (I := fun s ↦ StaysOut e.before s n) (fun s₁ l s₂ hl hm h₁ ↦
      h₁.move hm (fun a he ha ↦ ?_) (fun he ↦ ?_) fun key t c d he ↦ ?_) hrefl
    · subst he
      exact hrev (.inr (.inr ⟨a, hl.createTask, ha⟩))
    · subst he
      obtain ⟨auth, ha, hauth⟩ := hl.heartbeat
      exact hrev (.inl ⟨auth, ha, hauth⟩)
    · subst he
      obtain ⟨auth, ha, hauth, -⟩ := hl.take
      exact hclaim ⟨auth, c, d, ha, hauth⟩

/-- The step that deregisters a node leaves its hash where it is. -/
theorem Entry.deregisters_out (hr : Runs (handle e.action) e.before e.response e.after)
    (h : e.deregisters n) : n ∉ e.after.nodes ∧ e.after.node n ≠ none := by
  obtain ⟨auth, tid, c, body, ha, hauth, ⟨n', task, reason, hmay, hrej⟩, hb⟩ := h
  obtain rfl : n' = n := Option.some.inj (hmay.auth.nodeId.symm.trans hauth.nodeId)
  rw [ha] at hr
  have hafter : e.after = e.before.reject n' tid task.runtime :=
    ((wp_submitTaskResult_rejected hmay hrej fun _ s' ↦
      s' = e.before.reject n' tid task.runtime).mpr rfl).elim hr
  obtain ⟨node, hnode⟩ := hmay.auth
  have hstored : e.before.node n' = some node := (Store.authenticate_ok hnode).2.1
  rw [hafter]
  constructor
  · rw [Store.reject_nodes, Store.strike_nodes, if_pos hb]
    intro hmem
    have hne := (List.mem_filter.mp hmem).2
    simp at hne
  · rw [Store.reject_node, Store.strike_node, hstored]
    exact Option.some_ne_none node

/-- Between its deregistration and a step that revives it a node is no member. -/
theorem Run.out (h : Run (tr₁ ++ e :: tr₂) s) (hd : e.deregisters n)
    (hrev : ∀ e' ∈ tr₂, ¬ e'.revives n) : n ∉ s.nodes ∧ s.node n ≠ none := by
  refine h.later (I := fun s ↦ n ∉ s.nodes ∧ s.node n ≠ none)
    (e.deregisters_out h.split.2.2.1 hd) fun tr' e' hmem hr hf hs hout ↦ ?_
  have hstays := e'.staysOut (hr.newTo hf) hs (hrev e' hmem) hout.1 hout.2
  exact ⟨hstays.member, hstays.node⟩

omit [Sha256] in
theorem wp_getHealthyNodeIds_out (h : n ∉ s.nodes) (exclude : Option NodeId)
    (runtime : Option Runtime) :
    wp (getHealthyNodeIds exclude runtime) (fun nodeIds _ ↦ n ∉ nodeIds) s := by
  rw [wp_getHealthyNodeIds]
  exact fun hmem ↦ h (Store.mem_healthyNodeIds.mp hmem).1

/-- A node stays out from the step that deregisters it for as long as no step revives it: it is no
healthy node, nothing is put in its queue, no task is newly assigned to it, its claims are
answered with no task, and no planner is told of it. -/
theorem deregistration_permanent (h : Run (tr₁ ++ e :: tr₂) s) (hd : e.deregisters n)
    (hrev : ∀ e' ∈ tr₂, ¬ e'.revives n) :
    (∀ exclude runtime, wp (getHealthyNodeIds exclude runtime) (fun nodeIds _ ↦ n ∉ nodeIds) s) ∧
    ∀ e' ∈ tr₂, StaysOut e'.before e'.after n ∧
      (∀ auth c d answer, e'.action = .claim auth c d → auth.nodeId = some n →
        e'.response ≠ .claimed answer) ∧
      ∀ runtime nodeIds, e'.action = .availableNodes runtime → e'.response = .nodeIds nodeIds →
        n ∉ nodeIds := by
  refine ⟨wp_getHealthyNodeIds_out (h.out hd hrev).1, fun e' he' ↦ ?_⟩
  obtain ⟨tr₃, tr₄, rfl⟩ := List.append_of_mem he'
  have hassoc : tr₁ ++ e :: (tr₃ ++ e' :: tr₄) = (tr₁ ++ e :: tr₃) ++ e' :: tr₄ := by simp
  rw [hassoc] at h
  obtain ⟨hbefore, hfresh, hruns, -⟩ := h.split
  have hrev' : ¬ e'.revives n := hrev e' he'
  have hout := hbefore.out hd fun e'' he'' ↦ hrev e'' (List.mem_append_left _ he'')
  have hstays := e'.staysOut (hbefore.newTo hfresh) hruns hrev' hout.1 hout.2
  refine ⟨hstays, fun auth c d answer ha hid hresp ↦ ?_, fun runtime nodeIds ha hresp hmem ↦ ?_⟩
  · -- a claim that is answered with a task is authentic, so it is one of `n` that finds work
    rw [ha] at hruns
    rcases (wp_claimTask e'.before auth c d).elim hruns with ⟨hf, -⟩ | ⟨n', hauth, -⟩
    · rw [hresp] at hf
      cases hf
    · obtain rfl : n' = n := Option.some.inj (hauth.nodeId.symm.trans hid)
      have ho : e'.before.OffersNothing n' := by
        by_contra hno
        exact hrev' (.inr (.inl ⟨auth, c, d, ha, hauth, hno⟩))
      exact (claim_offersNothing hauth ho hruns).2 answer hresp
  · rw [ha] at hruns
    have hanswer : wp (handle (.availableNodes runtime)) (fun r s' ↦
        r = .nodeIds (s'.healthyNodeIds none runtime)) e'.before := by
      simp only [handle, getAvailableNodes, wp_bind, wp_getHealthyNodeIds, wp_pure]
      exact (wp_requeueStaleTasks e'.before).mono fun _ _ _ ↦ trivial
    have heq := hanswer.elim hruns
    rw [hresp, Response.nodeIds.injEq] at heq
    rw [heq] at hmem
    exact hstays.member (Store.mem_healthyNodeIds.mp hmem).1

end Runs

namespace Sample

/-- Five claims of `task1` by `nodeA`, each but the last followed by a receipt that does not
verify. -/
def fifthAttempt : List Action :=
  [.tick second, join nodeA keyA none, create task1 (some nodeA)] ++ badAttempt claim1 download1 ++
    badAttempt claim2 download2 ++ badAttempt claim3 download3 ++ badAttempt claim4 download4 ++
    [.claim authA claim5 download5]

def fifthRejection : Action := .result authA task1 (some claim5) badReceipt

end Sample

open Sample in
theorem deregistration_permanent_sweep :
    ∃ tr₁ e tr₂ s, Run (tr₁ ++ e :: tr₂) s ∧ e.deregisters nodeA ∧
      tr₂.map (·.action) = [.tick (1000 * second), .sweep] ∧
      wp (getHealthyNodeIds none none) (fun nodeIds _ ↦ nodeA ∉ nodeIds) s := by
  let s₀ := lastStore server (performed 200 server fifthAttempt)
  have hrun : Run (performed 200 server fifthAttempt) s₀ :=
    run_performed (by decide +kernel) (by decide +kernel)
  -- the task that is claimed, and the submission for it
  have hstored : (s₀.task task1).map (fun task ↦ (task.assignedNode, task.claimToken)) =
    some (some nodeA, some claim5) := by decide +kernel
  obtain ⟨task, htask, hfields⟩ := Option.map_eq_some_iff.mp hstored
  have hauth : (s₀.authenticate authA).toOption.map (·.1) = some nodeA := by decide +kernel
  have hmay : MaySubmit s₀ authA task1 (some claim5) nodeA task := by
    refine ⟨?_, htask, (Prod.mk.inj hfields).1, claim5, (Prod.mk.inj hfields).2, rfl⟩
    cases ha : s₀.authenticate authA with
    | error r =>
      rw [ha] at hauth
      cases hauth
    | ok p =>
      obtain ⟨n, node⟩ := p
      rw [ha] at hauth
      obtain rfl : n = nodeA := Option.some.inj hauth
      exact ⟨node, ha⟩
  have hreason : (s₀.rejection nodeA badReceipt).isSome = true := by decide +kernel
  obtain ⟨reason, hrej⟩ := Option.isSome_iff_exists.mp hreason
  obtain ⟨r, s₁, hsubmit, -⟩ := (wp_submitTaskResult_rejected hmay hrej fun _ _ ↦ True).mpr trivial
  have hcount : badReceiptThreshold ≤ s₀.badReceipts nodeA + 1 := by decide +kernel
  have hstep := hrun.step (a := fifthRejection) (.of_draws_nil rfl) hsubmit
  have hd : Entry.deregisters ⟨s₀, fifthRejection, r, s₁⟩ nodeA :=
    ⟨authA, task1, some claim5, badReceipt, rfl, hmay.auth, ⟨nodeA, task, reason, hmay, hrej⟩,
      hcount⟩
  -- time passes, and a sweep runs
  obtain ⟨r₂, s₂, htick, -⟩ := wp_handle s₁ (.tick (1000 * second)) trivial
  have hstep₂ := hstep.step (.of_draws_nil rfl) htick
  obtain ⟨r₃, s₃, hsweep, -⟩ := wp_handle s₂ .sweep trivial
  have hstep₃ := hstep₂.step (.of_draws_nil rfl) hsweep
  rw [List.append_assoc, List.append_assoc] at hstep₃
  refine ⟨_, _, _, s₃, hstep₃, hd, rfl, (deregistration_permanent hstep₃ hd fun e' he' ↦ ?_).1
    none none⟩
  have hquiet : e'.action = .tick (1000 * second) ∨ e'.action = .sweep := by
    rcases List.mem_cons.mp he' with rfl | he'
    · exact .inl rfl
    · rw [List.mem_singleton.mp he']
      exact .inr rfl
  rintro (⟨auth, ha, -⟩ | ⟨auth, c, d, ha, -⟩ | ⟨a, ha, -⟩) <;>
    rcases hquiet with hq | hq <;> rw [ha] at hq <;> cases hq

open Sample in
/-- A node that has been deregistered gets the task back with its next claim, and is a healthy
member again after its next report. -/
theorem deregistered_returns :
    let removed := performed 200 server (fifthAttempt ++ [fifthRejection])
    let reclaimed := performed 200 server
      (fifthAttempt ++ [fifthRejection, .claim authA (name "claim-6") (name "download-6")])
    let reported := performed 200 server (fifthAttempt ++ [fifthRejection, .health authA])
    let s := lastStore server reported
    nodeA ∉ (lastStore server removed).nodes ∧
      Run reclaimed (lastStore server reclaimed) ∧
      (reclaimed.getLast?.bind (·.response.claimedTid)) = some task1 ∧
      Run reported s ∧ nodeA ∈ s.nodes ∧
      (exec 200 (getHealthyNodeIds none none) s).map (·.1) = some [nodeA] :=
  ⟨by decide +kernel, run_performed (by decide +kernel) (by decide +kernel), by decide +kernel,
    run_performed (by decide +kernel) (by decide +kernel), by decide +kernel, by decide +kernel⟩

end TandemAio
