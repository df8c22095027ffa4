import TandemAio.Frames

/-!
# Reachable states

Ids and tokens in a state have been drawn, so what an action draws is new to the state it starts
in; and what every move keeps is kept by runs.
-/

open Reasoning Reasoning.Prog

namespace TandemAio

/-- The ids and tokens a move brings into the state. -/
def Label.draws : Label → List Name
  | .register a => [a.nodeId]
  | .createJob a => [a.jobId]
  | .createTask a => [a.tid]
  | .take _ _ _ claimToken downloadToken => [claimToken, downloadToken]
  | _ => []

/-- The ids and tokens of a state are among `D`. -/
structure Known (D : List Name) (s : Store) : Prop where
  task : ∀ t task, s.task t = some task → t ∈ D
  queue : ∀ key t, t ∈ s.queue key → t ∈ D
  pointer : ∀ n t, s.pointer n = some t → t ∈ D
  jobTasks : ∀ j t, t ∈ s.jobTasks j → t ∈ D
  key : ∀ t row, s.taskEncryptionKey t = some row → t ∈ D
  taskFile : ∀ j t f blob, s.file (.task j t f) = some blob → t ∈ D
  resultFile : ∀ j t blob, s.file (.result j t) = some blob → t ∈ D
  node : ∀ n node, s.node n = some node → n ∈ D
  member : ∀ n ∈ s.nodes, n ∈ D
  badReceipts : ∀ n, s.badReceipts n ≠ 0 → n ∈ D
  publicKey : ∀ n key, s.nodePublicKey n = some key → n ∈ D
  job : ∀ j job, s.job j = some job → j ∈ D
  claimToken : ∀ t task c, s.task t = some task → task.claimToken = some c → c ∈ D
  downloadToken : ∀ t task d, s.task t = some task → task.downloadToken = some d → d ∈ D

theorem eq_of_update_some {α β : Type} [DecidableEq α] {f : α → Option β} {a a' : α} {o : Option β}
    {b : β} (h : Function.update f a o a' = some b) : f a' = some b ∨ (a' = a ∧ o = some b) := by
  by_cases he : a' = a
  · subst he
    rw [Function.update_self] at h
    exact .inr ⟨rfl, h⟩
  · rw [Function.update_of_ne he] at h
    exact .inl h

namespace Known

variable {D : List Name} {s s' : Store} {l : Label}

theorem mono {D' : List Name} (h : Known D s) (hD : ∀ x ∈ D, x ∈ D') : Known D' s where
  task t task ht := hD t (h.task t task ht)
  queue key t ht := hD t (h.queue key t ht)
  pointer n t hp := hD t (h.pointer n t hp)
  jobTasks j t ht := hD t (h.jobTasks j t ht)
  key t row hr := hD t (h.key t row hr)
  taskFile j t f blob hf := hD t (h.taskFile j t f blob hf)
  resultFile j t blob hf := hD t (h.resultFile j t blob hf)
  node n node hn := hD n (h.node n node hn)
  member n hn := hD n (h.member n hn)
  badReceipts n hn := hD n (h.badReceipts n hn)
  publicKey n key hk := hD n (h.publicKey n key hk)
  job j job hj := hD j (h.job j job hj)
  claimToken t task c ht hc := hD c (h.claimToken t task c ht hc)
  downloadToken t task d ht hd := hD d (h.downloadToken t task d ht hd)

theorem unusedTask {t : Tid} (h : Known D s) (ht : t ∉ D) : s.UnusedTask t where
  task := Option.eq_none_iff_forall_ne_some.mpr fun task htask ↦ ht (h.task t task htask)
  queue key hq := ht (h.queue key t hq)
  pointer n node hn hp := ht (h.pointer n t (Option.bind_eq_some_iff.mpr ⟨node, hn, hp⟩))
  jobTasks j hj := ht (h.jobTasks j t hj)
  key := Option.eq_none_iff_forall_ne_some.mpr fun row hr ↦ ht (h.key t row hr)
  taskFile j f := Option.eq_none_iff_forall_ne_some.mpr fun blob hf ↦ ht (h.taskFile j t f blob hf)
  resultFile j := Option.eq_none_iff_forall_ne_some.mpr fun blob hf ↦ ht (h.resultFile j t blob hf)

theorem unusedNode {n : NodeId} (h : Known D s) (hn : n ∉ D) : s.UnusedNode n where
  node := Option.eq_none_iff_forall_ne_some.mpr fun node hs ↦ hn (h.node n node hs)
  member hm := hn (h.member n hm)
  badReceipts := by_contra fun hb ↦ hn (h.badReceipts n hb)
  publicKey := Option.eq_none_iff_forall_ne_some.mpr fun key hk ↦ hn (h.publicKey n key hk)

theorem initial (deployment userApi nodeRegistrationToken) :
    Known [] (Store.initial deployment userApi nodeRegistrationToken) := by
  constructor <;> simp [Store.initial, Store.pointer]

theorem move (h : Known D s) (hm : Move s l s') (hl : ∀ x ∈ l.draws, x ∈ D) : Known D s' where
  task t task ht := by
    rcases hm.task_cases ht with ⟨ht', -⟩ | ⟨a, rfl, rfl, -⟩ | ⟨task', ht', -⟩
    · exact h.task t task ht'
    · exact hl a.tid List.mem_cons_self
    · exact h.task t task' ht'
  queue key t ht := by
    by_cases hs : l.tid? = some t
    · rcases hm.tid_cases hs with ⟨a, rfl, rfl⟩ | rfl | ⟨task, ht'⟩ | ⟨key', ht'⟩
      · exact hl a.tid List.mem_cons_self
      · cases hm
        exact h.queue key t ht
      · exact h.task t task ht'
      · exact h.queue key' t ht'
    · rw [Store.mem_queue_iff, hm.waits_frame hs, ← Store.mem_queue_iff] at ht
      exact h.queue key t ht
  pointer n t hp := by
    rcases hm.pointer_cases hp with hp' | ⟨key, c, d, rfl⟩
    · exact h.pointer n t hp'
    · cases hm with
      | take _ _ _ hq _ _ => exact h.queue key t (hq ▸ List.mem_cons_self)
  jobTasks j t ht := by
    cases hm with
    | createTask a =>
      rw [Store.create_jobTasks, Function.update_apply] at ht
      split at ht
      · rcases List.mem_append.mp ht with ht | ht
        · exact h.jobTasks _ t ht
        · exact List.mem_singleton.mp ht ▸ hl a.tid List.mem_cons_self
      · exact h.jobTasks j t ht
    | _ => exact h.jobTasks j t ht
  key t row hr := by
    cases hm with
    | createTask a =>
      rw [Store.create_taskEncryptionKey, Store.putRow_taskEncryptionKey] at hr
      cases hk : a.keyRow s.nodePublicKey with
      | none => exact h.key t row (by rwa [hk] at hr)
      | some row' =>
        rw [hk] at hr
        rcases eq_of_update_some hr with hr | ⟨rfl, -⟩
        · exact h.key t row hr
        · exact hl a.tid List.mem_cons_self
    | unwrap tid =>
      rcases eq_of_update_some hr with hr | ⟨-, hr⟩
      · exact h.key t row hr
      · cases hr
    | _ => exact h.key t row hr
  taskFile j t f blob hf := by
    cases hm with
    | createTask a =>
      rcases eq_of_update_some hf with hf | ⟨hp, -⟩
      · exact h.taskFile j t f blob hf
      · cases hp
        exact hl a.tid List.mem_cons_self
    | complete =>
      rcases eq_of_update_some hf with hf | ⟨-, hf⟩
      · rcases eq_of_update_some hf with hf | ⟨hp, -⟩
        · exact h.taskFile j t f blob hf
        · cases hp
      · cases hf
    | fail =>
      rcases eq_of_update_some hf with hf | ⟨-, hf⟩
      · exact h.taskFile j t f blob hf
      · cases hf
    | _ => exact h.taskFile j t f blob hf
  resultFile j t blob hf := by
    cases hm with
    | createTask a =>
      rw [Store.create_file] at hf
      rcases eq_of_update_some hf with hf | ⟨hp, -⟩
      · exact h.resultFile j t blob hf
      · rw [CreateTask.blobPath] at hp
        cases hp
    | complete _ _ ht =>
      rcases eq_of_update_some hf with hf | ⟨-, hf⟩
      · rcases eq_of_update_some hf with hf | ⟨hp, -⟩
        · exact h.resultFile j t blob hf
        · cases hp
          exact h.task t _ ht
      · cases hf
    | fail =>
      rcases eq_of_update_some hf with hf | ⟨-, hf⟩
      · exact h.resultFile j t blob hf
      · cases hf
    | _ => exact h.resultFile j t blob hf
  node n node hn := by
    cases hm with
    | register a =>
      rcases eq_of_update_some hn with hn | ⟨rfl, -⟩
      · exact h.node n node hn
      · exact hl a.nodeId List.mem_cons_self
    | clearPointer hs | reclaim _ hs | take _ hs | heartbeat hs =>
      rcases eq_of_update_some hn with hn | ⟨rfl, -⟩
      · exact h.node n node hn
      · exact h.node n _ hs
    | complete | fail =>
      rcases eq_of_update_some hn with hn | ⟨rfl, hn⟩
      · exact h.node n node hn
      · obtain ⟨node', hs, -⟩ := Option.map_eq_some_iff.mp hn
        exact h.node n node' hs
    | _ => exact h.node n node hn
  member n hn := by
    cases hm with
    | register a =>
      rcases List.mem_insert_iff.mp hn with rfl | hn
      · exact hl a.nodeId List.mem_cons_self
      · exact h.member n hn
    | heartbeat hs =>
      rcases List.mem_insert_iff.mp hn with rfl | hn
      · exact h.node n _ hs
      · exact h.member n hn
    | reject =>
      rw [Store.reject_nodes, Store.strike_nodes] at hn
      split at hn
      · exact h.member n (List.mem_filter.mp hn).1
      · exact h.member n hn
    | _ => exact h.member n hn
  badReceipts n hn := by
    cases hm with
    | @reject n' _ _ _ _ hs =>
      by_cases he : n = n'
      · exact he ▸ h.node n' _ hs
      · rw [Store.reject_badReceipts, Store.strike_badReceipts, Function.update_of_ne he] at hn
        exact h.badReceipts n hn
    | _ => exact h.badReceipts n hn
  publicKey n key hk := by
    cases hm with
    | publicKey _ hs =>
      rcases eq_of_update_some hk with hk | ⟨rfl, -⟩
      · exact h.publicKey n key hk
      · exact h.node n _ hs
    | _ => exact h.publicKey n key hk
  job j job hj := by
    cases hm with
    | createJob a =>
      rcases eq_of_update_some hj with hj | ⟨rfl, -⟩
      · exact h.job j job hj
      · exact hl a.jobId List.mem_cons_self
    | refresh jobId =>
      rcases eq_of_update_some hj with hj | ⟨rfl, hj⟩
      · exact h.job j job hj
      · obtain ⟨job', hs, -⟩ := Option.map_eq_some_iff.mp hj
        exact h.job j job' hs
    | _ => exact h.job j job hj
  claimToken t task c ht hc := by
    rcases hm.task_cases ht with ⟨ht', -⟩ | ⟨a, rfl, rfl, rfl⟩ | ⟨task', ht', he⟩
    · exact h.claimToken t task c ht' hc
    · cases hc
    · cases he with
      | lease | start => exact h.claimToken t task' c ht' hc
      | claim => exact Option.some.inj hc ▸ hl _ List.mem_cons_self
      | requeue | complete | fail => cases hc
  downloadToken t task d ht hd := by
    rcases hm.task_cases ht with ⟨ht', -⟩ | ⟨a, rfl, rfl, rfl⟩ | ⟨task', ht', he⟩
    · exact h.downloadToken t task d ht' hd
    · cases hd
    · cases he with
      | lease | start => exact h.downloadToken t task' d ht' hd
      | claim => exact Option.some.inj hd ▸ hl _ (List.mem_cons_of_mem _ List.mem_cons_self)
      | requeue | complete | fail => cases hd

end Known

/-! ## Runs -/

/-- What the actions of a run have drawn. -/
def drawn (tr : List Entry) : List Name := tr.flatMap (·.action.draws)

section Runs

variable [Sha256] {tr tr₁ tr₂ : List Entry} {s s' : Store} {a : Action} {r : Response} {e : Entry}

omit [Sha256] in
theorem fresh_iff : Fresh tr a ↔ a.draws.Nodup ∧ ∀ x ∈ a.draws, x ∉ drawn tr := by
  simp only [Fresh, drawn, List.mem_flatMap, not_exists, not_and]

theorem Action.may.draws {l : Label} (h : a.may s r l) : ∀ x ∈ l.draws, x ∈ a.draws := by
  intro x hx
  cases a with
  | register a =>
    rcases h with rfl | ⟨key, -, rfl⟩
    · exact List.mem_singleton.mp hx ▸ List.mem_cons_self
    · cases hx
  | createJob a =>
    obtain rfl : l = .createJob a := h
    exact List.mem_singleton.mp hx ▸ List.mem_cons_self
  | createTask a =>
    obtain rfl : l = .createTask a := h
    exact hx
  | claim auth claimToken downloadToken =>
    obtain ⟨nodeId, -, hl⟩ := h
    cases l with
    | take n key t c d =>
      obtain ⟨-, rfl, rfl, -⟩ := hl
      exact hx
    | clearPointer | reclaim | discard | bounce => cases hx
    | _ => exact hl.elim
  | download auth tid downloadToken =>
    obtain ⟨nodeId, -, -, rfl | rfl⟩ := h <;> cases hx
  | result auth tid claimToken body =>
    obtain ⟨nodeId, -, ⟨rfl, -⟩ | ⟨-, ⟨k, n, rfl⟩ | ⟨task, -, rfl⟩⟩ | ⟨-, bytes, rfl⟩ |
      ⟨-, rfl⟩⟩ := h <;> cases hx
  | health auth => obtain ⟨nodeId, -, rfl | ⟨tid, rfl⟩⟩ := h <;> cases hx
  | availableNodes runtime =>
    cases l with
    | clearPointer | reclaim => cases hx
    | _ => exact False.elim h
  | sweep =>
    cases l with
    | clearPointer | reclaim | rehome | discard => cases hx
    | _ => exact h.elim False.elim False.elim
  | refreshJob jobId =>
    obtain rfl : l = .refresh jobId := h
    cases hx
  | tick now =>
    obtain rfl : l = .tick now := h
    cases hx
  | expireTask tid =>
    obtain rfl : l = .expire tid := h
    cases hx

/-! Which action makes a given move. -/

section Made

attribute [local simp] Action.may Label.ofClaim Label.stale Label.drain

theorem Action.may.expire {tid : Tid} (h : a.may s r (.expire tid)) : a = .expireTask tid := by
  cases a <;> simp_all

theorem Action.may.createTask {a' : CreateTask} (h : a.may s r (.createTask a')) :
    a = .createTask a' := by
  cases a <;> simp_all

theorem Action.may.register {a' : Register} (h : a.may s r (.register a')) : a = .register a' := by
  cases a <;> simp_all

theorem Action.may.take {n key tid c d} (h : a.may s r (.take n key tid c d)) :
    ∃ auth, a = .claim auth c d ∧ s.Authentic auth n ∧ r.claimedTid = some tid := by
  cases a <;> simp_all

theorem Action.may.reject {n tid} (h : a.may s r (.reject n tid)) :
    ∃ auth claimToken body, a = .result auth tid claimToken body ∧ s.Authentic auth n ∧
      r.refusal = true ∧ s.rejects auth tid claimToken body := by
  cases a <;> simp_all

theorem Action.may.complete {n tid bytes} (h : a.may s r (.complete n tid bytes)) :
    ∃ auth claimToken body, a = .result auth tid claimToken body ∧ s.Authentic auth n ∧
      r.ended = some .completed := by
  cases a <;> simp_all

theorem Action.may.fail {n tid} (h : a.may s r (.fail n tid)) :
    ∃ auth claimToken body, a = .result auth tid claimToken body ∧ s.Authentic auth n ∧
      r.ended = some .failed := by
  cases a <;> simp_all

theorem Action.may.start {n tid} (h : a.may s r (.start n tid)) :
    ∃ auth token, a = .download auth tid token ∧ s.Authentic auth n ∧ r.refusal = false := by
  cases a <;> simp_all

theorem Action.may.heartbeat {n} (h : a.may s r (.heartbeat n)) :
    ∃ auth, a = .health auth ∧ s.Authentic auth n := by
  cases a <;> simp_all

theorem Action.may.tick {now} (h : a.may s r (.tick now)) : a = .tick now := by
  cases a <;> simp_all

theorem Action.may.unwrap {tid} (h : a.may s r (.unwrap tid)) :
    ∃ auth token n, a = .download auth tid token ∧ s.Authentic auth n ∧ r.refusal = false := by
  cases a <;> simp_all

end Made

omit [Sha256] in
theorem Known.newTo {D : List Name} (h : Known D s) (hnew : ∀ x ∈ a.draws, x ∉ D) :
    a.NewTo s := by
  cases a with
  | register a => exact h.unusedNode (hnew a.nodeId List.mem_cons_self)
  | createJob a =>
    refine Option.eq_none_iff_forall_ne_some.mpr fun job hj ↦ ?_
    exact hnew a.jobId List.mem_cons_self (h.job a.jobId job hj)
  | createTask a => exact h.unusedTask (hnew a.tid List.mem_cons_self)
  | _ => trivial

theorem Runs.via (hnew : a.NewTo s) (hr : Runs (handle a) s r s') : Via (a.may s r) s s' :=
  (wp_handle s a hnew).elim hr

theorem Run.known (h : Run tr s) : Known (drawn tr) s := by
  induction h with
  | start => exact .initial _ _ _
  | @step tr s a r s' _ hf hr ih =>
    have hd : drawn (tr ++ [⟨s, a, r, s'⟩]) = drawn tr ++ a.draws := by
      simp only [drawn, List.flatMap_append, List.flatMap_cons, List.flatMap_nil, List.append_nil]
    rw [hd]
    refine (Runs.via (ih.newTo (fresh_iff.mp hf).2) hr).invariant (fun s₁ l s₂ hl hm h₁ ↦ ?_)
      (ih.mono fun x hx ↦ List.mem_append_left _ hx)
    exact h₁.move hm fun x hx ↦ List.mem_append_right _ (hl.draws x hx)

theorem Run.newTo (h : Run tr s) (hf : Fresh tr a) : a.NewTo s :=
  h.known.newTo (fresh_iff.mp hf).2

/-- An entry of a run starts where the run before it ends. -/
theorem Run.split (h : Run (tr₁ ++ e :: tr₂) s) :
    Run tr₁ e.before ∧ Fresh tr₁ e.action ∧ Runs (handle e.action) e.before e.response e.after ∧
      Run (tr₁ ++ [e]) e.after := by
  generalize htr : tr₁ ++ e :: tr₂ = tr at h
  induction h generalizing tr₂ with
  | start => simp at htr
  | @step tr s a r s' hr hf hs ih =>
    rcases List.eq_nil_or_concat tr₂ with rfl | ⟨tr₃, e', rfl⟩
    · obtain ⟨rfl, he⟩ := List.append_inj' htr rfl
      obtain rfl := List.singleton_inj.mp he
      exact ⟨hr, hf, hs, hr.step hf hs⟩
    · rw [List.concat_eq_append, ← List.cons_append, ← List.append_assoc] at htr
      exact ih (List.append_inj' htr rfl).1

theorem Run.via (h : Run (tr₁ ++ e :: tr₂) s) :
    Via (e.action.may e.before e.response) e.before e.after :=
  Runs.via (h.split.1.newTo h.split.2.1) h.split.2.2.1

omit [Sha256] in
theorem drawn_append : drawn (tr₁ ++ tr₂) = drawn tr₁ ++ drawn tr₂ := List.flatMap_append

/-- What holds after an entry of a run and is kept by every later one holds at the end. -/
theorem Run.later {I : Store → Prop} (h : Run (tr₁ ++ e :: tr₂) s) (he : I e.after)
    (hstep : ∀ tr' e', e' ∈ tr₂ → Run (tr₁ ++ e :: tr') e'.before →
      Fresh (tr₁ ++ e :: tr') e'.action →
      Runs (handle e'.action) e'.before e'.response e'.after → I e'.before → I e'.after) : I s := by
  generalize htr : tr₁ ++ e :: tr₂ = tr at h
  induction h generalizing tr₂ with
  | start => simp at htr
  | @step tr s a r s' hr hf hs ih =>
    rcases List.eq_nil_or_concat tr₂ with rfl | ⟨tr₃, e', rfl⟩
    · obtain ⟨-, he'⟩ := List.append_inj' htr rfl
      obtain rfl := List.singleton_inj.mp he'
      exact he
    · rw [List.concat_eq_append, ← List.cons_append, ← List.append_assoc] at htr
      obtain ⟨rfl, he'⟩ := List.append_inj' htr rfl
      obtain rfl := List.singleton_inj.mp he'
      refine hstep tr₃ ⟨s, a, r, s'⟩ ?_ hr hf hs (ih (fun tr' e' hmem ↦ ?_) rfl)
      · rw [List.concat_eq_append]
        exact List.mem_append_right _ List.mem_cons_self
      · refine hstep tr' e' ?_
        rw [List.concat_eq_append]
        exact List.mem_append_left _ hmem

/-- An invariant that every move with a label in `P` keeps holds where a run of such moves
ends. -/
theorem Run.invariant {I : Store → Prop} {P : Label → Prop} (h : Run tr s)
    (hinit : ∀ deployment userApi token, I (Store.initial deployment userApi token))
    (hmove : ∀ s l s', P l → Move s l s' → I s → I s')
    (hP : ∀ e ∈ tr, ∀ l, e.action.may e.before e.response l → P l) : I s := by
  induction h with
  | start => exact hinit _ _ _
  | @step tr s a r s' hr hf hs ih =>
    refine (Runs.via (hr.newTo hf) hs).invariant (fun s₁ l s₂ hl hm h₁ ↦ ?_)
      (ih fun e he ↦ hP e (List.mem_append_left _ he))
    exact hmove s₁ l s₂ (hP ⟨s, a, r, s'⟩ (List.mem_append_right _ List.mem_cons_self) l hl) hm h₁

end Runs

end TandemAio
