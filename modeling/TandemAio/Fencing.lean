import TandemAio.Ownership

/-!
# Fencing of result submissions

A submission ends a task only for the node that holds it, with the token of its last claim, which
the task has kept in every state since.  A token that is no longer current never is again.
-/

open Reasoning Reasoning.Prog

namespace TandemAio

/-- Node `n` holds task `t` with claim token `c`. -/
def Holds (s : Store) (t : Tid) (n : NodeId) (c : Token) : Prop :=
  ∃ task, s.task t = some task ∧ task.status.live = true ∧ task.assignedNode = some n ∧
    task.claimToken = some c

/-- A claim of `n` that takes `t` and issues `c`. -/
def Entry.claims (e : Entry) (n : NodeId) (t : Tid) (c : Token) : Prop :=
  ∃ auth d answer, e.action = .claim auth c d ∧ auth.nodeId = some n ∧
    e.response = .claimed answer ∧ answer.tid = t ∧ answer.claimToken = some c

/-- A claim in the run issued `c` for `t` to `n`, who has held it in every state since. -/
def HeldSince (tr : List Entry) (t : Tid) (n : NodeId) (c : Token) : Prop :=
  ∃ tr₁ e tr₂, tr = tr₁ ++ e :: tr₂ ∧ e.claims n t c ∧ Holds e.after t n c ∧
    ∀ e' ∈ tr₂, Holds e'.before t n c ∧ Holds e'.after t n c

/-- A submission for `t` that is accepted, as a result or as a failure report. -/
def Entry.ends (e : Entry) (t : Tid) : Prop :=
  ∃ auth claimToken body, e.action = .result auth t claimToken body ∧ e.response.ended ≠ none

def Store.claimTokenOf (s : Store) (t : Tid) : Option Token := (s.task t).bind (·.claimToken)

variable {s s' : Store}

/-- A token of a task was there before, or a claim has issued it. -/
theorem Via.claimToken_cases {P : Label → Prop} (hv : Via P s s') {t : Tid} {task' : Task}
    {c : Token} (ht' : s'.task t = some task') (hc' : task'.claimToken = some c) :
    (∃ task, s.task t = some task ∧ task.claimToken = some c ∧
      task.assignedNode = task'.assignedNode) ∨
    ∃ n key d, P (.take n key t c d) ∧ task'.assignedNode = some n := by
  have hinv : ∀ task', s'.task t = some task' → task'.claimToken = some c →
      (∃ task, s.task t = some task ∧ task.claimToken = some c ∧
        task.assignedNode = task'.assignedNode) ∨
      ∃ n key d, P (.take n key t c d) ∧ task'.assignedNode = some n := by
    refine hv.invariant (I := fun s₁ ↦ ∀ task₁, s₁.task t = some task₁ →
      task₁.claimToken = some c → (∃ task, s.task t = some task ∧ task.claimToken = some c ∧
        task.assignedNode = task₁.assignedNode) ∨
      ∃ n key d, P (.take n key t c d) ∧ task₁.assignedNode = some n)
      (fun s₁ l s₂ hl hm h₁ task₂ ht₂ hc₂ ↦ ?_) fun task ht hc ↦ .inl ⟨task, ht, hc, rfl⟩
    rcases hm.claimToken_cases ht₂ hc₂ with ⟨task₁, ht₁, hc₁, ha⟩ | ⟨n, key, d, rfl, ha⟩
    · exact ha ▸ h₁ task₁ ht₁ hc₁
    · exact .inr ⟨n, key, d, hl, ha⟩
  exact hinv task' ht' hc'

section Runs

variable [Sha256] {tr tr₁ tr₂ : List Entry}

/-- Who has a token of a task holds it since a claim of the run. -/
theorem Run.heldSince (h : Run tr s) {t : Tid} {task : Task} {c : Token}
    (ht : s.task t = some task) (hc : task.claimToken = some c) :
    ∃ n, task.assignedNode = some n ∧ HeldSince tr t n c := by
  induction h generalizing task with
  | start => cases ht
  | @step tr s a r s' hr hf hs ih =>
    have hv := Runs.via (hr.newTo hf) hs
    have hcoh' : Coherent s' := (hr.step hf hs).coherent
    have hlive' : task.status.live = true := hcoh'.holder ht hc
    rcases hv.claimToken_cases ht hc with ⟨task₀, ht₀, hc₀, ha₀⟩ | ⟨n, key, d, hmay, ha⟩
    · -- the token was there before this entry
      obtain ⟨n, hn, tr₁, e, tr₂, rfl, hclaims, hafter, hsince⟩ := ih ht₀ hc₀
      have hn' : task.assignedNode = some n := ha₀ ▸ hn
      refine ⟨n, hn', tr₁, e, tr₂ ++ [⟨s, a, r, s'⟩], by simp, hclaims, hafter, fun e' he' ↦ ?_⟩
      rcases List.mem_append.mp he' with he' | he'
      · exact hsince e' he'
      · obtain rfl := List.mem_singleton.mp he'
        have hlive₀ : task₀.status.live = true := hr.coherent.holder ht₀ hc₀
        exact ⟨⟨task₀, ht₀, hlive₀, hn, hc₀⟩, ⟨task, ht, hlive', hn', hc⟩⟩
    · -- this entry is the claim that issues it
      obtain ⟨auth, rfl, hid, hclaimed⟩ := hmay.take
      refine ⟨n, ha, tr, ⟨s, .claim auth c d, r, s'⟩, [], rfl, ?_, ⟨task, ht, hlive', ha, hc⟩,
        fun e' he' ↦ by cases he'⟩
      rcases (wp_claimTask s auth c d).elim hs with ⟨hf', -⟩ | ⟨n', -, hans⟩
      · cases r <;> simp [Response.claimedTid, Response.refusal] at hclaimed hf'
      · cases r with
        | claimed answer =>
          obtain ⟨task', ht', -, hanswer, -⟩ := hans.answers answer rfl
          obtain rfl : answer.tid = t := Option.some.inj hclaimed
          obtain rfl := Option.some.inj (ht.symm.trans ht')
          refine ⟨auth, d, answer, rfl, hid.nodeId, rfl, rfl, ?_⟩
          rw [hanswer]
          exact hc
        | _ => cases hclaimed

/-- A token drawn before some state of a run and not current there is never current again. -/
theorem Run.retired {e : Entry} (h : Run (tr₁ ++ e :: tr₂) s) {t : Tid} {c : Token}
    (hdrawn : c ∈ drawn (tr₁ ++ [e])) (hnot : e.after.claimTokenOf t ≠ some c) :
    s.claimTokenOf t ≠ some c := by
  refine h.later (I := fun s ↦ s.claimTokenOf t ≠ some c) hnot fun tr' e' _ hr hf hs hb hcur ↦ ?_
  obtain ⟨task', ht', hc'⟩ := Option.bind_eq_some_iff.mp hcur
  rcases (Runs.via (hr.newTo hf) hs).claimToken_cases ht' hc' with
    ⟨task, ht, hc, -⟩ | ⟨n, key, d, hmay, -⟩
  · exact hb (Option.bind_eq_some_iff.mpr ⟨task, ht, hc⟩)
  · -- the token would be drawn twice
    obtain ⟨auth, ha, -, -⟩ := hmay.take
    have hnew := (fresh_iff.mp hf).2 c (by rw [ha]; exact List.mem_cons_self)
    refine hnew ?_
    rw [show tr₁ ++ e :: tr' = (tr₁ ++ [e]) ++ tr' by simp, drawn_append]
    exact List.mem_append_left _ hdrawn

/-- A submission not made by the holder with its token is refused. -/
theorem Submitted.refused_of_not {auth : NodeAuth} {tid : Tid} {claimToken : Option Token}
    {body : ResultBody} {r : Response} (h : Submitted s auth tid claimToken body r s')
    (hnot : ∀ n task, ¬ MaySubmit s auth tid claimToken n task) : r.refusal = true ∧ s' = s := by
  cases h with
  | refused hr => exact ⟨hr, rfl⟩
  | rejected hmay => exact absurd hmay (hnot _ _)
  | completed hmay => exact absurd hmay (hnot _ _)
  | failed hmay => exact absurd hmay (hnot _ _)

/-- A submission leaves every other task as it is. -/
theorem Submitted.task_frame {auth : NodeAuth} {tid : Tid} {claimToken : Option Token}
    {body : ResultBody} {r : Response} (h : Submitted s auth tid claimToken body r s') {t : Tid}
    (hne : tid ≠ t) : s'.task t = s.task t := by
  cases h with
  | refused => rfl
  | rejected => exact Function.update_of_ne (Ne.symm hne) _ _
  | failed _ he =>
    subst he
    exact Function.update_of_ne (Ne.symm hne) _ _
  | completed _ _ hcharge he =>
    subst he
    refine (Function.update_of_ne (Ne.symm hne) _ _).trans ?_
    rcases Store.chargeFor_eq hcharge with rfl | ⟨k, amount, rfl⟩ <;> rfl

/-- An accepted submission is made by the holder with its token, and ends the task. -/
theorem Submitted.ended {auth : NodeAuth} {tid : Tid} {claimToken : Option Token}
    {body : ResultBody} {r : Response} (h : Submitted s auth tid claimToken body r s')
    (hr : r.ended ≠ none) : ∃ n task task', MaySubmit s auth tid claimToken n task ∧
      s'.task tid = some task' ∧ task'.status.finished = true := by
  cases h with
  | refused hf => cases r <;> simp [Response.ended, Response.refusal] at hr hf
  | rejected => simp [Response.ended] at hr
  | failed hmay he =>
    subst he
    exact ⟨_, _, _, hmay, by
      rw [Store.refresh_task, Store.fail_task, Function.update_self, hmay.stored, Option.map_some],
      rfl⟩
  | @completed _ task _ _ s₁ _ hmay _ hcharge he =>
    subst he
    have hstored : s₁.task tid = some task := by
      rcases Store.chargeFor_eq hcharge with rfl | ⟨k, amount, rfl⟩ <;> exact hmay.stored
    exact ⟨_, _, _, hmay, by
      rw [Store.refresh_task, Store.complete_task, Function.update_self, hstored, Option.map_some],
      rfl⟩

/-- A submission that ends a task is accepted, and for that task. -/
theorem Submitted.finishes {auth : NodeAuth} {tid t : Tid} {claimToken : Option Token}
    {body : ResultBody} {r : Response} {task task' : Task}
    (h : Submitted s auth tid claimToken body r s') (ht : s.task t = some task)
    (hf : task.status.finished = false) (ht' : s'.task t = some task')
    (hf' : task'.status.finished = true) :
    tid = t ∧ ∃ n, MaySubmit s auth tid claimToken n task := by
  have hsame : s'.task t ≠ s.task t := by
    rw [ht, ht', ne_eq, Option.some.injEq]
    rintro rfl
    rw [hf] at hf'
    cases hf'
  have htid : tid = t := by_contra fun hne ↦ hsame (h.task_frame hne)
  subst htid
  refine ⟨rfl, ?_⟩
  cases h with
  | refused => exact absurd rfl hsame
  | rejected hmay =>
    rw [Store.reject_task, Store.requeue_task, Function.update_self, Store.strike_task, ht,
      Option.map_some, Option.some.injEq] at ht'
    subst ht'
    cases hf'
  | failed hmay | completed hmay =>
    obtain rfl := Option.some.inj (ht.symm.trans hmay.stored)
    exact ⟨_, hmay⟩

/-- A finished task is finished for the rest of the run, as long as its hash lives. -/
theorem Run.finished_later {e : Entry} (h : Run (tr₁ ++ e :: tr₂) s) {t : Tid} {task : Task}
    (ht : e.after.task t = some task) (hf : task.status.finished = true) :
    s.task t = some task ∨ s.task t = none := by
  have hstored := h.split.2.2.2.known.task t task ht
  refine h.later (I := fun s ↦ s.task t = some task ∨ s.task t = none) (.inl ht)
    fun tr' e' _ hr hfr hs hb ↦ ?_
  refine ((Runs.via (hr.newTo hfr) hs).invariant (I := fun s ↦ Coherent s ∧
    (s.task t = some task ∨ s.task t = none)) (fun s₁ l s₂ hl hm h₁ ↦ ⟨h₁.1.move hm, ?_⟩)
    ⟨hr.coherent, hb⟩).2
  rcases h₁.2 with ht₁ | ht₁
  · exact h₁.1.finished_final hm ht₁ hf
  · -- an id that was drawn is not drawn for a new task
    right
    cases ht₂ : s₂.task t with
    | none => rfl
    | some task₂ =>
      rcases hm.task_cases ht₂ with ⟨hs₁, -⟩ | ⟨a, rfl, rfl, -⟩ | ⟨task₁, hs₁, -⟩
      · rw [ht₁] at hs₁
        cases hs₁
      · have hnew := (fresh_iff.mp hfr).2 a.tid (by rw [hl.createTask]; exact List.mem_cons_self)
        refine absurd ?_ hnew
        rw [show tr₁ ++ e :: tr' = (tr₁ ++ [e]) ++ tr' by simp, drawn_append]
        exact List.mem_append_left _ hstored
      · rw [ht₁] at hs₁
        cases hs₁

theorem Run.submitted {e : Entry} (h : Run (tr₁ ++ e :: tr₂) s) {auth : NodeAuth} {tid : Tid}
    {claimToken : Option Token} {body : ResultBody}
    (ha : e.action = .result auth tid claimToken body) :
    Submitted e.before auth tid claimToken body e.response e.after := by
  have hruns := h.split.2.2.1
  rw [ha] at hruns
  exact (wp_submitTaskResult e.before auth tid claimToken body).elim hruns

/-- A submission ends only the task it names, and only for the node that has held the task with
the presented token since its last claim; without the current token, and with one that was
current once, it is refused and changes nothing; and no two submissions for one task are
accepted. -/
theorem result_fencing (h : Run tr s) :
    (∀ tr₁ e tr₂, tr = tr₁ ++ e :: tr₂ → ∀ auth tid claimToken body,
      e.action = .result auth tid claimToken body →
      (∀ t task task', e.before.task t = some task → task.status.finished = false →
        e.after.task t = some task' → task'.status.finished = true →
        tid = t ∧ ∃ n c, auth.nodeId = some n ∧ task.assignedNode = some n ∧
          claimToken = some c ∧ task.claimToken = some c ∧ HeldSince tr₁ t n c) ∧
      ((∀ n task, ¬ MaySubmit e.before auth tid claimToken n task) →
        e.response.refusal = true ∧ e.after = e.before) ∧
      (∀ c tr₀ e₀ tr₀', claimToken = some c → tr₁ = tr₀ ++ e₀ :: tr₀' →
        c ∈ drawn (tr₀ ++ [e₀]) → e₀.after.claimTokenOf tid ≠ some c →
        e.response.refusal = true ∧ e.after = e.before)) ∧
    (∀ tr₁ e tr₂ e' tr₃, tr = tr₁ ++ e :: (tr₂ ++ e' :: tr₃) → ∀ t, e.ends t → ¬ e'.ends t) := by
  constructor
  · rintro tr₁ e tr₂ rfl auth tid claimToken body ha
    have hsub := h.submitted ha
    have hbefore := h.split.1
    refine ⟨fun t task task' ht hf ht' hf' ↦ ?_, hsub.refused_of_not,
      fun c tr₀ e₀ tr₀' hc htr hdrawn hnot ↦ hsub.refused_of_not fun n task hmay ↦ ?_⟩
    · obtain ⟨rfl, n, hmay⟩ := hsub.finishes ht hf ht' hf'
      obtain ⟨c, hc, hc'⟩ := hmay.token
      obtain ⟨n', hn', hheld⟩ := hbefore.heldSince ht hc
      obtain rfl := Option.some.inj (hmay.assigned.symm.trans hn')
      exact ⟨rfl, n, c, hmay.auth.nodeId, hmay.assigned, hc', hc, hheld⟩
    · subst htr
      obtain ⟨c', hc₁, hc₂⟩ := hmay.token
      rw [hc, Option.some.injEq] at hc₂
      refine hbefore.retired hdrawn hnot ?_
      exact Option.bind_eq_some_iff.mpr ⟨task, hmay.stored, by rw [hc₁, hc₂]⟩
  · rintro tr₁ e tr₂ e' tr₃ rfl t ⟨auth, claimToken, body, ha, hr⟩
    rintro ⟨auth', claimToken', body', ha', hr'⟩
    obtain ⟨_, _, task, -, ht, hf⟩ := (h.submitted ha).ended hr
    have htr : tr₁ ++ e :: (tr₂ ++ e' :: tr₃) = (tr₁ ++ e :: tr₂) ++ e' :: tr₃ := by simp
    rw [htr] at h
    obtain ⟨_, task', _, hmay, -, -⟩ := (h.submitted ha').ended hr'
    obtain ⟨c, hc, -⟩ := hmay.token
    have hlive := h.split.1.coherent.holder hmay.stored hc
    rcases h.split.1.finished_later ht hf with hs | hs
    · obtain rfl := Option.some.inj (hs.symm.trans hmay.stored)
      exact TaskStatus.not_finished_of_live hlive hf
    · rw [hmay.stored] at hs
      cases hs

end Runs

open Sample in
theorem result_fencing_second_submission :
    let tr := performed 200 server [.tick second, join nodeA keyA none, create task1 (some nodeA),
      .claim authA claim1 download1, .result authA task1 (some claim1) (.failure "boom"),
      .result authA task1 (some claim1) (.failure "boom")]
    (tr.map fun e ↦ e.response.ended) = [none, none, none, none, some .failed, none] ∧
      ∀ tr₁ e tr₂ e' tr₃, tr = tr₁ ++ e :: (tr₂ ++ e' :: tr₃) → ∀ t, e.ends t → ¬ e'.ends t :=
  ⟨by decide +kernel, (result_fencing (run_performed (by decide +kernel) (by decide +kernel))).2⟩

end TandemAio
