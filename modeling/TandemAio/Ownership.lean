import TandemAio.Coherence

/-!
# Exclusive ownership

A node's pointer and a task's assignment are written by different requests.  They agree as long
as no submission is rejected for its receipt: that branch gives the task back and leaves the
pointer of the node.
-/

open Reasoning Reasoning.Prog

namespace TandemAio

/-- Every pointer to a task is the pointer of its node, and the task is live. -/
def Owned (s : Store) : Prop :=
  ∀ n t task, s.pointer n = some t → s.task t = some task →
    task.status.live = true ∧ task.assignedNode = some n

/-- A move that is not the rejection of a receipt. -/
def Label.notReject : Label → Prop
  | .reject .. => False
  | _ => True

def Entry.rejects [Sha256] (e : Entry) : Prop :=
  ∃ auth tid claimToken body, e.action = .result auth tid claimToken body ∧
    e.before.rejects auth tid claimToken body

variable {s s' : Store} {l : Label}

theorem Owned.move (h : Owned s) (hcoh : Coherent s) (hm : Move s l s') (hl : l.notReject) :
    Owned s' := by
  intro n t task hp ht
  rcases hm.pointer_cases hp with hp₀ | ⟨key, c, d, rfl⟩
  · rcases hm.task_cases ht with ⟨hs, -⟩ | ⟨a, rfl, rfl, rfl⟩ | ⟨task₀, hs, he⟩
    · exact h n t task hp₀ hs
    · -- nothing points at a task that is new
      cases hm with
      | createTask _ hnew =>
        obtain ⟨node, hn, hc⟩ := Option.bind_eq_some_iff.mp hp₀
        exact absurd hc (hnew.pointer n node hn)
    · obtain ⟨hlive, hassigned⟩ := h n t task₀ hp₀ hs
      -- a task that waits in a queue is not live
      have hwaits : ∀ key, t ∉ s.queue key := fun key hmem ↦ by
        rw [((hcoh t task₀ hs).queued_of_mem hmem).1] at hlive
        cases hlive
      -- who ends or takes the task is its node, and its pointer goes
      have hclears : ∀ m, task₀.assignedNode = some m → l.clears = some m → False := by
        intro m hm' hc
        rw [hassigned, Option.some.injEq] at hm'
        have hnone := hm.pointer_cleared hc
        rw [← hm', hp] at hnone
        cases hnone
      cases he with
      | lease => exact ⟨hlive, hassigned⟩
      | start m => exact ⟨rfl, hassigned⟩
      | claim m key c d =>
        cases hm with
        | take _ _ _ hq => exact absurd (hq ▸ List.mem_cons_self) (hwaits key)
      | complete m =>
        cases hm with
        | complete _ _ ht' ha =>
          obtain rfl := Option.some.inj (hs.symm.trans ht')
          exact (hclears m ha rfl).elim
      | fail m =>
        cases hm with
        | fail _ _ ht' ha =>
          obtain rfl := Option.some.inj (hs.symm.trans ht')
          exact (hclears m ha rfl).elim
      | requeue hr =>
        cases hm with
        | @reclaim m node tid _ _ hn hcur =>
          obtain ⟨rfl, -⟩ := Prod.mk.inj (Option.some.inj hr)
          have hpm : s.pointer m = some tid := Option.bind_eq_some_iff.mpr ⟨node, hn, hcur⟩
          exact (hclears m (h m tid task₀ hpm hs).2 rfl).elim
        | @rehome m tid _ _ _ hq =>
          obtain ⟨rfl, -⟩ := Prod.mk.inj (Option.some.inj hr)
          exact absurd (hq ▸ List.mem_cons_self) (hwaits (.node m))
        | @bounce _ key tid _ _ _ hq =>
          obtain ⟨rfl, -⟩ := Prod.mk.inj (Option.some.inj hr)
          exact absurd (hq ▸ List.mem_cons_self) (hwaits key)
        | reject => exact hl.elim
        | _ => cases hr
  · cases hm with
    | take _ _ _ _ ht' =>
      rw [Store.take_task, Function.update_self, ht', Option.map_some, Option.some.injEq] at ht
      subst ht
      exact ⟨rfl, rfl⟩

theorem Run.owned [Sha256] {tr : List Entry} (h : Run tr s) (hr : ∀ e ∈ tr, ¬ e.rejects) :
    Owned s := by
  have hboth : Coherent s ∧ Owned s := by
    refine h.invariant (P := Label.notReject) (I := fun s ↦ Coherent s ∧ Owned s)
      (fun _ _ _ ↦ ⟨fun _ _ ht ↦ (by cases ht), fun _ _ _ hp ↦ (by cases hp)⟩)
      (fun s l s' hl hm hs ↦ ⟨hs.1.move hm, hs.2.move hs.1 hm hl⟩) fun e he l hl ↦ ?_
    cases l with
    | reject n tid =>
      obtain ⟨auth, claimToken, body, ha, -, -, hrej⟩ := hl.reject
      exact hr e he ⟨auth, tid, claimToken, body, ha, hrej⟩
    | _ => trivial
  exact hboth.2

/-- The stale-task pass leaves the live tasks of healthy nodes alone. -/
theorem wp_requeueStaleTasks_healthy (hcoh : Coherent s) (howned : Owned s) {t : Tid} {task : Task}
    {n : NodeId} {node : Node} (ht : s.task t = some task) (ha : task.assignedNode = some n)
    (hn : s.node n = some node) (hh : isNodeHealthy node s.clock = true) :
    wp requeueStaleTasks (fun _ s' ↦ s'.task t = some task) s := by
  refine (wp_requeueStaleTasks s).mono fun _ s' hv ↦ ?_
  have hinv : Coherent s' ∧ Owned s' ∧ SameRoster s s' ∧ s'.task t = some task := by
    refine hv.invariant (I := fun s' ↦ Coherent s' ∧ Owned s' ∧ SameRoster s s' ∧
      s'.task t = some task) (fun s₁ l s₂ hl hm h₁ ↦ ?_) ⟨hcoh, howned, .refl s, ht⟩
    obtain ⟨hc₁, ho₁, hr₁, ht₁⟩ := h₁
    have hnot : l.notReject := by
      cases l with
      | reject => exact hl.elim
      | _ => trivial
    refine ⟨hc₁.move hm, ho₁.move hc₁ hm hnot, hr₁.trans (hm.sameRoster (.inl hl)), ?_⟩
    cases hm with
    | clearPointer => exact ht₁
    | @reclaim m node₁ tid task₁ hdead hn₁ hcur ht' =>
      by_cases he : tid = t
      · -- the node that points at `t` is its own, and that one is healthy
        subst he
        have hp : s₁.pointer m = some tid := Option.bind_eq_some_iff.mpr ⟨node₁, hn₁, hcur⟩
        have hm := (ho₁ m tid task hp ht₁).2
        rw [ha, Option.some.injEq] at hm
        subst hm
        obtain ⟨node₂, hn₂, hh₂⟩ := hr₁.health n node hn
        obtain ⟨-, node₃, hn₃, hh₃⟩ := hdead
        rw [hn₂, Option.some.injEq] at hn₃
        rw [← hn₃, hr₁.clock, hh₂, hh] at hh₃
        cases hh₃
      · exact (Function.update_of_ne (Ne.symm he) _ _).trans ht₁
    | _ => exact hl.elim
  exact hinv.2.2.2

/-- In runs in which no submission is rejected for its receipt, pointers and assignments agree:
no two nodes point at one live task, a claim answers with a task and tokens of the node itself,
and the stale-task pass takes no live task from a healthy node. -/
theorem exclusive_ownership [Sha256] {tr : List Entry} (h : Run tr s)
    (hr : ∀ e ∈ tr, ¬ e.rejects) :
    (∀ n t task, s.pointer n = some t → s.task t = some task → task.status.live = true →
      task.assignedNode = some n) ∧
    (∀ n m t task, s.pointer n = some t → s.pointer m = some t → s.task t = some task →
      task.status.live = true → n = m) ∧
    (∀ e ∈ tr, ∀ auth claimToken downloadToken answer,
      e.action = .claim auth claimToken downloadToken → e.response = .claimed answer →
      ∃ n task, auth.nodeId = some n ∧ e.after.task answer.tid = some task ∧
        task.assignedNode = some n ∧ answer = claimResponse answer.tid task) ∧
    (∀ t task n node, s.task t = some task → task.status.live = true →
      task.assignedNode = some n → s.node n = some node → isNodeHealthy node s.clock = true →
      wp requeueStaleTasks (fun _ s' ↦ s'.task t = some task) s) := by
  have howned := h.owned hr
  refine ⟨fun n t task hp ht _ ↦ (howned n t task hp ht).2, fun n m t task hn hm ht _ ↦ ?_,
    fun e he auth claimToken downloadToken answer ha hresp ↦ ?_,
    fun t task n node ht _ ha hn hh ↦ wp_requeueStaleTasks_healthy h.coherent howned ht ha hn hh⟩
  · have hn' := (howned n t task hn ht).2
    have hm' := (howned m t task hm ht).2
    rw [hn', Option.some.injEq] at hm'
    exact hm'
  · obtain ⟨tr₁, tr₂, rfl⟩ := List.append_of_mem he
    obtain ⟨-, -, hruns, hafter⟩ := h.split
    have howned' := hafter.owned fun e' he' ↦ hr e' (by
      rcases List.mem_append.mp he' with he' | he'
      · exact List.mem_append_left _ he'
      · rw [List.mem_singleton.mp he']
        exact he)
    rw [ha, hresp] at hruns
    rcases (wp_claimTask e.before auth claimToken downloadToken).elim hruns with
      ⟨hf, -⟩ | ⟨n, hid, hc⟩
    · cases hf
    · obtain ⟨task, ht, -, hanswer, node, hn, hcur⟩ := hc.answers answer rfl
      have hp : e.after.pointer n = some answer.tid := Option.bind_eq_some_iff.mpr ⟨node, hn, hcur⟩
      exact ⟨n, task, hid.nodeId, ht, (howned' n answer.tid task hp ht).2, hanswer⟩

open Sample in
theorem exclusive_ownership_claimed :
    let s := lastStore server (performed 200 server
      [.tick second, join nodeA keyA none, create task1 (some nodeA),
        .claim authA claim1 download1])
    s.pointer nodeA = some task1 ∧ (s.task task1).map (·.status) = some .claimed ∧
      ∀ n m t task, s.pointer n = some t → s.pointer m = some t → s.task t = some task →
        task.status.live = true → n = m := by
  refine ⟨by decide +kernel, by decide +kernel, (exclusive_ownership (run_performed
    (by decide +kernel) (by decide +kernel)) fun e he hrej ↦ ?_).2.1⟩
  obtain ⟨auth, tid, claimToken, body, ha, -⟩ := hrej
  have hmem := performed_actions he
  rw [ha] at hmem
  simp [join, create] at hmem

open Sample in
/-- A receipt of `nodeA` is rejected, `nodeB` claims the task, and `nodeA` still points at it; its
next claim answers with the tokens of `nodeB`. -/
theorem rejected_receipt_leaves_pointer :
    let tr := performed 200 server [.tick second, join nodeA keyA none, join nodeB keyB none,
      create task1 (some nodeA), .claim authA claim1 download1,
      .result authA task1 (some claim1) badReceipt, .claim authB claim2 download2]
    let s := lastStore server tr
    Run tr s ∧ s.pointer nodeA = some task1 ∧ s.pointer nodeB = some task1 ∧
      (s.task task1).map (fun task ↦ (task.status, task.assignedNode)) =
        some (.claimed, some nodeB) ∧
      (exec 200 (claimTask authA claim3 download3) s).map
        (fun r ↦ match r.1 with
          | .claimed answer => (some answer.tid, answer.claimToken, answer.downloadToken)
          | _ => (none, none, none)) = some (some task1, some claim2, some download2) :=
  ⟨run_performed (by decide +kernel) (by decide +kernel), by decide +kernel, by decide +kernel,
    by decide +kernel, by decide +kernel⟩

end TandemAio
