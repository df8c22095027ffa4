import TandemAio.Coherence
import TandemAio.Crash

/-!
# Recovery after a crash

The server stops between two commands, and the nodes and the sweeper go on from what it has left.
The one task an operation has in hand can be lost; every other task stays where a claim or a sweep
finds it.
-/

open Reasoning Reasoning.Prog

namespace TandemAio

namespace Store

/-- The queues claims read: those of registered nodes, and the two for unassigned tasks. -/
def isRead (s : Store) : QueueKey → Prop
  | .node nodeId => ∃ node, s.node nodeId = some node
  | .unassigned _ => True

/-- A task that a later claim or sweep comes to: it waits in a queue that is read and from which
it is not dropped, or its node points at it. -/
inductive Recoverable (s : Store) (t : Tid) (task : Task) : Prop
  | waits (key) : task.status = .queued → t ∈ s.queue key →
      key = homeQueue task.assignedNode task.runtime → s.isRead key → Recoverable s t task
  | held (n) : task.status.live = true → task.assignedNode = some n → s.pointer n = some t →
      Recoverable s t task

/-- A task that is not finished and that nothing will come to. -/
def Stranded (s : Store) (t : Tid) : Prop :=
  ∃ task, s.task t = some task ∧ task.status.finished = false ∧ ¬ s.Recoverable t task

/-- A task that is where its status says, if it exists. -/
def Settled (s : Store) (t : Tid) : Prop := ∀ task, s.task t = some task → TaskCoherent s t task

end Store

/-- A task in no queue and at no node. `issued n c` says that `n` has been sent the claim token
`c`. -/
structure Adrift (issued : NodeId → Token → Prop) (s : Store) (t : Tid) (task : Task) : Prop where
  waits : ∀ key, s.waits t key = 0
  place : (task.status = .queued ∧ task.claimToken = none ∧ task.downloadToken = none) ∨
    (task.status.live = true ∧ ∃ n c, task.assignedNode = some n ∧ task.claimToken = some c ∧
      s.pointer n ≠ some t ∧ ¬ issued n c)

/-- What crashes leave intact: every task is settled or adrift, queued tasks are assigned to nodes
that exist, and no two tasks have one claim token. -/
structure Intact (issued : NodeId → Token → Prop) (s : Store) : Prop where
  placed : ∀ t task, s.task t = some task → TaskCoherent s t task ∨ Adrift issued s t task
  assigned : ∀ t task, s.task t = some task → task.status = .queued → s.HasNode task.assignedNode
  tokens : ∀ t u task task' c, s.task t = some task → s.task u = some task' →
    task.claimToken = some c → task'.claimToken = some c → t = u

/-- The node and the task of a move that spends a claim token. -/
def Label.spends : Label → Option (NodeId × Tid)
  | .complete nodeId tid _ | .fail nodeId tid | .reject nodeId tid => some (nodeId, tid)
  | _ => none

section Steps

variable {issued : NodeId → Token → Prop} {s s' : Store} {l : Label}

/-! ## What is stranded -/

theorem Adrift.stranded {t : Tid} {task : Task} (h : Adrift issued s t task)
    (ht : s.task t = some task) : s.Stranded t := by
  have hqueue : ∀ key, t ∉ s.queue key := fun key hmem ↦
    Store.mem_queue_iff.mp hmem (h.waits key)
  refine ⟨task, ht, ?_, fun hr ↦ ?_⟩
  · rcases h.place with ⟨hs, -⟩ | ⟨hs, -⟩
    · rw [hs]
      rfl
    · simpa using TaskStatus.not_finished_of_live hs
  · cases hr with
    | waits key _ hmem => exact hqueue key hmem
    | held n hlive ha hp =>
      rcases h.place with ⟨hs, -⟩ | ⟨-, n', c, ha', -, hp', -⟩
      · rw [hs] at hlive
        cases hlive
      · rw [ha, Option.some.injEq] at ha'
        exact hp' (ha' ▸ hp)

theorem TaskCoherent.recoverable {t : Tid} {task : Task} (h : TaskCoherent s t task)
    (hnode : task.status = .queued → s.HasNode task.assignedNode)
    (hf : task.status.finished = false) : s.Recoverable t task := by
  rcases task.status.cases with hs | hs | hs
  · refine .waits (homeQueue task.assignedNode task.runtime) hs ?_ rfl ?_
    · rw [Store.mem_queue_iff, (h.queued hs).2.2, if_pos rfl]
      exact Nat.one_ne_zero
    · cases ha : task.assignedNode with
      | none => trivial
      | some n => exact hnode hs n ha
  · obtain ⟨-, -, -, n, ha, hp⟩ := h.live hs
    exact .held n hs ha hp
  · rw [hf] at hs
    cases hs

/-- In an intact state the stranded tasks are those that are not settled. -/
theorem Intact.stranded_iff (h : Intact issued s) (t : Tid) : s.Stranded t ↔ ¬ s.Settled t := by
  constructor
  · rintro ⟨task, ht, hf, hno⟩ hset
    exact hno ((hset task ht).recoverable (h.assigned t task ht) hf)
  · intro hno
    rw [Store.Settled, not_forall] at hno
    obtain ⟨task, hno⟩ := hno
    rw [Classical.not_imp] at hno
    obtain ⟨ht, hno⟩ := hno
    exact ((h.placed t task ht).resolve_left hno).stranded ht

/-! ## Moves -/

theorem Move.requeues_hasNode (hm : Move s l s') {t : Tid} {destination : Option NodeId}
    (hr : l.requeues = some (t, destination)) : s.HasNode destination := by
  have hnone : s.HasNode none := fun n hn ↦ by cases hn
  cases hm with
  | reclaim | rehome =>
    obtain ⟨-, rfl⟩ := Prod.mk.inj (Option.some.inj hr)
    exact Store.hasNode_head?_healthyNodeIds s _ _
  | bounce | reject =>
    obtain ⟨-, rfl⟩ := Prod.mk.inj (Option.some.inj hr)
    exact hnone
  | _ => cases hr

theorem Move.hasNode (hm : Move s l s') {nodeId : Option NodeId} (h : s.HasNode nodeId) :
    s'.HasNode nodeId := by
  intro n hn
  obtain ⟨node, hs⟩ := h n hn
  exact Option.ne_none_iff_exists'.mp (hm.node_stays (by rw [hs]; exact Option.some_ne_none node))

/-- A move leaves a task adrift or brings it to a queue, unless it spends its token. -/
theorem Adrift.move {t : Tid} {task task' : Task} (h : Adrift issued s t task)
    (ht : s.task t = some task) (hm : Move s l s') (hspends : ∀ n, l.spends ≠ some (n, t))
    (ht' : s'.task t = some task') : Adrift issued s' t task' ∨ TaskCoherent s' t task' := by
  have hqueue : ∀ key, t ∉ s.queue key := fun key hmem ↦
    Store.mem_queue_iff.mp hmem (h.waits key)
  have hpointer : ∀ n, s.pointer n ≠ some t → s'.pointer n ≠ some t := by
    intro n hp hp'
    rcases hm.pointer_cases hp' with hp' | ⟨key, c, d, rfl⟩
    · exact hp hp'
    · cases hm with
      | take _ _ _ hq => exact hqueue key (hq ▸ List.mem_cons_self)
  rcases hm.task_cases ht' with ⟨hs, hno⟩ | ⟨a, rfl, rfl, rfl⟩ | ⟨task₀, hs, he⟩
  · obtain rfl := Option.some.inj (ht.symm.trans hs)
    have htid : l.tid? ≠ some t := by
      rcases hno with hne | ⟨key, rfl⟩
      · exact hne
      · cases hm with
        | discard hq => exact absurd (hq ▸ List.mem_cons_self) (hqueue key)
    refine .inl ⟨fun key ↦ (hm.waits_frame htid key).trans (h.waits key), ?_⟩
    rcases h.place with hqueued | ⟨hlive, n, c, ha, hc, hp, hi⟩
    · exact .inl hqueued
    · exact .inr ⟨hlive, n, c, ha, hc, hpointer n hp, hi⟩
  · cases hm with
    | createTask _ hnew =>
      rw [hnew.task] at ht
      cases ht
  · obtain rfl := Option.some.inj (ht.symm.trans hs)
    cases he with
    | lease =>
      cases hm with
      | lease => exact .inl ⟨h.waits, h.place⟩
    | start n =>
      cases hm with
      | start _ ht₁ _ hd _ =>
        obtain rfl := Option.some.inj (ht.symm.trans ht₁)
        rcases h.place with ⟨-, -, hnone⟩ | ⟨-, hheld⟩
        · rw [hd] at hnone
          cases hnone
        · exact .inl ⟨h.waits, .inr ⟨rfl, hheld⟩⟩
    | claim n key c d =>
      cases hm with
      | take _ _ _ hq => exact absurd (hq ▸ List.mem_cons_self) (hqueue key)
    | complete n | fail n => exact absurd rfl (hspends n)
    | requeue hr =>
      cases hm with
      | reclaim _ _ _ ht₁ =>
        -- a node that is dead still points at the task
        obtain ⟨rfl, rfl⟩ := Prod.mk.inj (Option.some.inj hr)
        obtain rfl := Option.some.inj (ht.symm.trans ht₁)
        exact .inr ((TaskCoherent.requeue h.waits).frame (fun _ ↦ rfl) fun hl ↦ by cases hl)
      | @rehome m _ _ _ _ hq =>
        obtain ⟨rfl, -⟩ := Prod.mk.inj (Option.some.inj hr)
        exact absurd (hq ▸ List.mem_cons_self) (hqueue (.node m))
      | @bounce _ key _ _ _ _ hq =>
        obtain ⟨rfl, -⟩ := Prod.mk.inj (Option.some.inj hr)
        exact absurd (hq ▸ List.mem_cons_self) (hqueue key)
      | @reject n =>
        obtain ⟨rfl, -⟩ := Prod.mk.inj (Option.some.inj hr)
        exact absurd rfl (hspends n)
      | _ => cases hr

/-- A token is spent on a settled task only. -/
def Label.spendsSettled (s : Store) (l : Label) : Prop :=
  ∀ n t, l.spends = some (n, t) → s.Settled t

theorem Move.ends_pointer (hm : Move s l s') (hspends : l.spendsSettled s) {n : NodeId} {t : Tid}
    (hl : l.ends = some (n, t)) : s.pointer n = some t := by
  cases hm with
  | complete _ _ ht ha hc | fail _ _ ht ha hc =>
    obtain ⟨rfl, rfl⟩ := Prod.mk.inj (Option.some.inj hl)
    exact (hspends _ _ rfl _ ht).pointer ha hc
  | _ => cases hl

theorem Move.settled (hm : Move s l s') (hspends : l.spendsSettled s) {t : Tid}
    (h : s.Settled t) : s'.Settled t := fun _ ht' ↦
  TaskCoherent.move h hm (fun _ _ ↦ hm.ends_pointer hspends) ht'

theorem Intact.move (h : Intact issued s) (hm : Move s l s') (hspends : l.spendsSettled s)
    (hcreate : ∀ a, l = .createTask a → s.HasNode a.assignedNode)
    (htake : ∀ n key t c d, l = .take n key t c d →
      ∀ u task, s.task u = some task → task.claimToken = some c → u = t) : Intact issued s' where
  placed t task' ht' := by
    by_cases hset : s.Settled t
    · exact .inl (hm.settled hspends hset task' ht')
    · -- a task that is not settled is there, and adrift
      rw [Store.Settled, not_forall] at hset
      obtain ⟨task, hno⟩ := hset
      rw [Classical.not_imp] at hno
      obtain ⟨ht, hno⟩ := hno
      have hadrift := (h.placed t task ht).resolve_left hno
      refine (hadrift.move ht hm (fun n hl ↦ ?_) ht').symm
      exact hno (hspends n t hl task ht)
  assigned t task' ht' hs' := by
    rcases hm.task_cases ht' with ⟨hs, -⟩ | ⟨a, rfl, rfl, rfl⟩ | ⟨task, hs, he⟩
    · exact hm.hasNode (h.assigned t task' hs hs')
    · exact hm.hasNode (hcreate a rfl)
    · cases he with
      | lease => exact hm.hasNode (h.assigned t task hs hs')
      | requeue hr => exact hm.hasNode (hm.requeues_hasNode hr)
      | start | claim | complete | fail => cases hs'
  tokens t u task task' c ht hu hc hc' := by
    rcases hm.claimToken_cases ht hc with ⟨task₁, ht₁, hc₁, -⟩ | ⟨n, key, d, rfl, -⟩
    · rcases hm.claimToken_cases hu hc' with ⟨task₂, hu₂, hc₂, -⟩ | ⟨n, key, d, rfl, -⟩
      · exact h.tokens t u task₁ task₂ c ht₁ hu₂ hc₁ hc₂
      · exact htake n key u c d rfl t task₁ ht₁ hc₁
    · rcases hm.claimToken_cases hu hc' with ⟨task₂, hu₂, hc₂, -⟩ | ⟨n', key', d', hl, -⟩
      · exact (htake n key t c d rfl u task₂ hu₂ hc₂).symm
      · cases hl
        rfl

/-! ## The first writes of a move -/

namespace Known

variable {D : List Name}

theorem pop (h : Known D s) (key : QueueKey) : Known D (s.pop key) :=
  { h with
    queue := fun key' t ht ↦ by
      rw [Store.pop_queue, Function.update_apply] at ht
      split at ht
      · exact h.queue key t (List.mem_of_mem_tail ht)
      · exact h.queue key' t ht }

theorem push (h : Known D s) (key : QueueKey) {tid : Tid} (htid : tid ∈ D) :
    Known D (s.push key tid) :=
  { h with
    queue := fun key' t ht ↦ by
      rw [Store.push_queue, Function.update_apply] at ht
      split at ht
      · rcases List.mem_append.mp ht with ht | ht
        · exact h.queue key t ht
        · exact List.mem_singleton.mp ht ▸ htid
      · exact h.queue key' t ht }

/-- A write to a task hash whose tokens are known. -/
theorem modifyTask (h : Known D s) (tid : Tid) {f : Task → Task}
    (hc : ∀ task c, (f task).claimToken = some c → task.claimToken = some c ∨ c ∈ D)
    (hd : ∀ task d, (f task).downloadToken = some d → task.downloadToken = some d ∨ d ∈ D) :
    Known D (s.modifyTask tid f) := by
  have hcases : ∀ {t task'}, (s.modifyTask tid f).task t = some task' →
      s.task t = some task' ∨ ∃ task, s.task t = some task ∧ task' = f task := by
    intro t task' ht'
    rcases eq_of_update_some ht' with hs | ⟨rfl, hmap⟩
    · exact .inl hs
    · obtain ⟨task, hs, hf⟩ := Option.map_eq_some_iff.mp hmap
      exact .inr ⟨task, hs, hf.symm⟩
  exact { h with
    task := fun t task' ht ↦ by
      rcases hcases ht with ht | ⟨task, ht, -⟩ <;> exact h.task t _ ht
    claimToken := fun t task' c ht hc' ↦ by
      rcases hcases ht with hs | ⟨task, hs, rfl⟩
      · exact h.claimToken t task' c hs hc'
      · exact (hc task c hc').elim (h.claimToken t task c hs) id
    downloadToken := fun t task' d ht hd' ↦ by
      rcases hcases ht with hs | ⟨task, hs, rfl⟩
      · exact h.downloadToken t task' d hs hd'
      · exact (hd task d hd').elim (h.downloadToken t task d hs) id }

theorem requeueHash (h : Known D s) (tid : Tid) (destination : Option NodeId) (now : Time) :
    Known D (s.modifyTask tid (·.requeue destination now)) :=
  h.modifyTask tid (fun _ _ hc ↦ by cases hc) fun _ _ hd ↦ by cases hd

theorem strike (h : Known D s) {nodeId : NodeId} (hn : nodeId ∈ D) : Known D (s.strike nodeId) :=
  { h with
    member := fun n hm ↦ by
      rw [Store.strike_nodes] at hm
      split at hm
      · exact h.member n (List.mem_filter.mp hm).1
      · exact h.member n hm
    badReceipts := fun n hb ↦ by
      by_cases he : n = nodeId
      · exact he ▸ hn
      · rw [Store.strike_badReceipts, Function.update_of_ne he] at hb
        exact h.badReceipts n hb }

theorem pushJobTask (h : Known D s) (jobId : JobId) {tid : Tid} (htid : tid ∈ D) :
    Known D (s.pushJobTask jobId tid) :=
  { h with
    jobTasks := fun j t ht ↦ by
      rw [Store.pushJobTask_jobTasks, Function.update_apply] at ht
      split at ht
      · rcases List.mem_append.mp ht with ht | ht
        · exact h.jobTasks jobId t ht
        · exact List.mem_singleton.mp ht ▸ htid
      · exact h.jobTasks j t ht }

theorem createHash (h : Known D s) {a : CreateTask} (ha : a.tid ∈ D) :
    Known D (s.createHash a) :=
  { h with
    task := fun t task ht ↦ by
      rcases eq_of_update_some ht with ht | ⟨rfl, -⟩
      · exact h.task t task ht
      · exact ha
    claimToken := fun t task c ht hc ↦ by
      rcases eq_of_update_some ht with hs | ⟨rfl, hs⟩
      · exact h.claimToken t task c hs hc
      · cases hs
        cases hc
    downloadToken := fun t task d ht hd ↦ by
      rcases eq_of_update_some ht with hs | ⟨rfl, hs⟩
      · exact h.downloadToken t task d hs hd
      · cases hs
        cases hd
    key := fun t row hr ↦ by
      rw [Store.createHash_taskEncryptionKey, Store.putRow_taskEncryptionKey] at hr
      cases hk : a.keyRow s.nodePublicKey with
      | none => exact h.key t row (by rwa [hk] at hr)
      | some row' =>
        rw [hk] at hr
        rcases eq_of_update_some hr with hr | ⟨rfl, -⟩
        · exact h.key t row hr
        · exact ha
    taskFile := fun j t f blob hf ↦ by
      rcases eq_of_update_some hf with hf | ⟨hp, -⟩
      · exact h.taskFile j t f blob hf
      · cases hp
        exact ha
    resultFile := fun j t blob hf ↦ by
      rw [Store.createHash_file] at hf
      rcases eq_of_update_some hf with hf | ⟨hp, -⟩
      · exact h.resultFile j t blob hf
      · rw [CreateTask.blobPath] at hp
        cases hp }

/-- The first writes of a move bring in what they draw. -/
theorem half {tid : Tid} {draws : List Name} (h : Known D s) (hh : Half s tid draws s')
    (hD : draws ⊆ D) : Known D s' := by
  cases hh with
  | popped => exact h.pop _
  | popRequeued => exact (h.pop _).requeueHash tid _ _
  | requeued => exact h.requeueHash tid _ _
  | unpointed ht => exact (h.requeueHash tid _ _).push _ (h.task tid _ ht)
  | @taken nodeId _ _ _ _ _ c d =>
    refine (h.pop _).modifyTask tid (fun task c' hc ↦ .inr ?_) fun task d' hd ↦ .inr ?_
    · exact Option.some.inj hc ▸ hD List.mem_cons_self
    · exact Option.some.inj hd ▸ hD (List.mem_cons_of_mem c List.mem_cons_self)
  | created => exact h.createHash (hD List.mem_cons_self)
  | listed => exact (h.createHash (hD List.mem_cons_self)).pushJobTask _ (hD List.mem_cons_self)
  | struck hn => exact h.strike (h.node _ _ hn)
  | struckRequeued hn => exact (h.strike (h.node _ _ hn)).requeueHash tid _ _

end Known

namespace Half

variable {tid : Tid} {draws : List Name}

theorem node_eq (hh : Half s tid draws s') : s'.node = s.node := by
  cases hh <;> rfl

theorem task_frame (hh : Half s tid draws s') {t : Tid} (ht : t ≠ tid) : s'.task t = s.task t := by
  cases hh with
  | popped | struck => rfl
  | _ => exact Function.update_of_ne ht _ _

theorem waits_frame (hh : Half s tid draws s') {t : Tid} (ht : t ≠ tid) (key : QueueKey) :
    s'.waits t key = s.waits t key := by
  have hpop : ∀ {key' : QueueKey} {rest : List Tid}, s.queue key' = tid :: rest →
      (s.pop key').waits t key = s.waits t key := by
    intro key' rest hq
    have h := Store.waits_pop (u := t) hq key
    rwa [if_neg (fun h ↦ ht h.2), Nat.add_zero] at h
  cases hh with
  | popped hq | popRequeued hq | taken _ _ hq => exact hpop hq
  | unpointed => rw [Store.waits_requeue, if_neg (fun h ↦ ht h.2), Nat.add_zero]
  | requeued | created | listed | struck | struckRequeued => rfl

/-- The other tasks stay where they are. -/
theorem settled (hh : Half s tid draws s') {t : Tid} (ht : t ≠ tid) (h : s.Settled t) :
    s'.Settled t := by
  intro task hs'
  rw [hh.task_frame ht] at hs'
  refine (h task hs').frame (hh.waits_frame ht) fun _ n _ hp ↦ ?_
  rw [Store.pointer, hh.node_eq]
  exact hp

/-- The task in hand is settled or adrift. -/
theorem placed (hh : Half s tid draws s') (h : Intact issued s)
    (hnew : ∀ n, ∀ c ∈ draws, ¬ issued n c) {task' : Task} (ht' : s'.task tid = some task') :
    TaskCoherent s' tid task' ∨ Adrift issued s' tid task' := by
  -- a task that waits is settled, and one that is live waits nowhere
  have hwaiting : ∀ {key task rest}, s.queue key = tid :: rest → s.task tid = some task →
      TaskCoherent s tid task := by
    intro key task rest hq ht
    refine (h.placed tid task ht).resolve_right fun hadrift ↦ ?_
    exact Store.mem_queue_iff.mp (hq ▸ List.mem_cons_self) (hadrift.waits key)
  have hlive : ∀ {task}, s.task tid = some task → task.status.live = true →
      ∀ key, s.waits tid key = 0 := by
    intro task ht hl
    rcases h.placed tid task ht with hcoh | hadrift
    · exact (hcoh.live hl).2.2.1
    · exact hadrift.waits
  have hmap : ∀ {task : Task} {f : Task → Task}, s.task tid = some task →
      Function.update s.task tid ((s.task tid).map f) tid = some task' → task' = f task := by
    intro task f ht hu
    rw [Function.update_self, ht, Option.map_some, Option.some.injEq] at hu
    exact hu.symm
  cases hh with
  | popped hq =>
    have hcoh := hwaiting hq ht'
    obtain ⟨hs, -⟩ := hcoh.queued_of_mem (hq ▸ List.mem_cons_self)
    obtain ⟨hc, hd, -⟩ := hcoh.queued hs
    exact .inr ⟨hcoh.waits_pop hq, .inl ⟨hs, hc, hd⟩⟩
  | popRequeued hq ht =>
    obtain rfl := hmap ht ht'
    exact .inr ⟨(hwaiting hq ht).waits_pop hq, .inl ⟨rfl, rfl, rfl⟩⟩
  | requeued ht hl =>
    obtain rfl := hmap ht ht'
    exact .inr ⟨hlive ht hl, .inl ⟨rfl, rfl, rfl⟩⟩
  | unpointed ht hl =>
    obtain rfl := hmap ht ht'
    exact .inl (TaskCoherent.requeue (hlive ht hl))
  | @taken n node _ _ _ _ c d hn hidle hq ht =>
    obtain rfl := hmap ht ht'
    refine .inr ⟨(hwaiting hq ht).waits_pop hq, .inr ⟨rfl, n, c, rfl, rfl, ?_, ?_⟩⟩
    · have hnone : s.pointer n = none := by rw [Store.pointer, hn, Option.bind_some, hidle]
      intro hp
      exact Option.some_ne_none _ (hp.symm.trans hnone)
    · exact hnew n c List.mem_cons_self
  | @created a hunused | @listed a hunused =>
    have htask : Function.update s.task a.tid (some (a.task s.clock)) a.tid = some task' := ht'
    rw [Function.update_self, Option.some.injEq] at htask
    subst htask
    exact .inr ⟨fun key ↦ List.count_eq_zero.mpr (hunused.queue key), .inl ⟨rfl, rfl, rfl⟩⟩
  | struck =>
    rcases h.placed tid task' ht' with hcoh | hadrift
    · exact .inl (hcoh.frame (fun _ ↦ rfl) fun _ _ _ hp ↦ hp)
    · exact .inr ⟨hadrift.waits, hadrift.place⟩
  | struckRequeued _ ht hl =>
    obtain rfl := hmap ht ht'
    exact .inr ⟨hlive ht hl, .inl ⟨rfl, rfl, rfl⟩⟩

/-- A claim token was there before, or is new. -/
theorem claimToken_cases (hh : Half s tid draws s') {t : Tid} {task' : Task} {c : Token}
    (ht' : s'.task t = some task') (hc : task'.claimToken = some c) :
    (∃ task, s.task t = some task ∧ task.claimToken = some c) ∨ t = tid ∧ c ∈ draws := by
  by_cases he : t = tid
  · subst he
    cases hh with
    | popped | struck => exact .inl ⟨task', ht', hc⟩
    | popRequeued | requeued | unpointed | struckRequeued =>
      rcases eq_of_update_some ht' with ht | ⟨-, ht⟩
      · exact .inl ⟨task', ht, hc⟩
      · obtain ⟨task, -, rfl⟩ := Option.map_eq_some_iff.mp ht
        cases hc
    | taken =>
      rcases eq_of_update_some ht' with ht | ⟨-, ht⟩
      · exact .inl ⟨task', ht, hc⟩
      · obtain ⟨task, -, rfl⟩ := Option.map_eq_some_iff.mp ht
        exact .inr ⟨rfl, Option.some.inj hc ▸ List.mem_cons_self⟩
    | created | listed =>
      rcases eq_of_update_some ht' with ht | ⟨-, ht⟩
      · exact .inl ⟨task', ht, hc⟩
      · cases ht
        cases hc
  · rw [hh.task_frame he] at ht'
    exact .inl ⟨task', ht', hc⟩

theorem assigned (hh : Half s tid draws s') (h : Intact issued s) {t : Tid} {task' : Task}
    (ht' : s'.task t = some task') (hs : task'.status = .queued) :
    s'.HasNode task'.assignedNode := by
  have hnode : ∀ {nodeId : Option NodeId}, s.HasNode nodeId → s'.HasNode nodeId := by
    intro nodeId h n hn
    rw [hh.node_eq]
    exact h n hn
  by_cases he : t = tid
  · subst he
    refine hnode ?_
    cases hh with
    | popped | struck => exact h.assigned t task' ht' hs
    | popRequeued _ _ hdest | requeued _ _ hdest | unpointed _ _ hdest =>
      rcases eq_of_update_some ht' with ht | ⟨-, ht⟩
      · exact h.assigned t task' ht hs
      · obtain ⟨task, -, rfl⟩ := Option.map_eq_some_iff.mp ht
        exact hdest
    | struckRequeued =>
      rcases eq_of_update_some ht' with ht | ⟨-, ht⟩
      · exact h.assigned t task' ht hs
      · obtain ⟨task, -, rfl⟩ := Option.map_eq_some_iff.mp ht
        intro n hn
        cases hn
    | taken =>
      rcases eq_of_update_some ht' with ht | ⟨-, ht⟩
      · exact h.assigned t task' ht hs
      · obtain ⟨task, -, rfl⟩ := Option.map_eq_some_iff.mp ht
        cases hs
    | created _ hdest | listed _ hdest =>
      rcases eq_of_update_some ht' with ht | ⟨-, ht⟩
      · exact h.assigned _ task' ht hs
      · cases ht
        exact hdest
  · rw [hh.task_frame he] at ht'
    exact hnode (h.assigned t task' ht' hs)

end Half

theorem Intact.half (h : Intact issued s) {tid : Tid} {draws : List Name}
    (hh : Half s tid draws s') (hnew : ∀ n, ∀ c ∈ draws, ¬ issued n c)
    (hfresh : ∀ c ∈ draws, ∀ u task, s.task u = some task → task.claimToken ≠ some c) :
    Intact issued s' where
  placed t task' ht' := by
    by_cases he : t = tid
    · subst he
      exact hh.placed h hnew ht'
    · have ht := ht'
      rw [hh.task_frame he] at ht
      rcases h.placed t task' ht with hcoh | hadrift
      · exact .inl (hh.settled he (fun task hs ↦ (Option.some.inj (ht.symm.trans hs)) ▸ hcoh)
          task' ht')
      · refine .inr ⟨fun key ↦ (hh.waits_frame he key).trans (hadrift.waits key), ?_⟩
        simp only [Store.pointer, hh.node_eq]
        exact hadrift.place
  assigned t task' := hh.assigned h
  tokens t u task task' c ht hu hc hc' := by
    rcases hh.claimToken_cases ht hc with ⟨task₁, ht₁, hc₁⟩ | ⟨rfl, hd⟩
    · rcases hh.claimToken_cases hu hc' with ⟨task₂, hu₂, hc₂⟩ | ⟨rfl, hd⟩
      · exact h.tokens t u task₁ task₂ c ht₁ hu₂ hc₁ hc₂
      · exact absurd hc₁ (hfresh c hd t task₁ ht₁)
    · rcases hh.claimToken_cases hu hc' with ⟨task₂, hu₂, hc₂⟩ | ⟨rfl, -⟩
      · exact absurd hc₂ (hfresh c hd u task₂ hu₂)
      · rfl

/-! ## Operations -/

/-- The claim tokens of a state are among `D`, but for that of the task `target`. -/
def TokensIn (D : List Name) (target : Option Tid) (s : Store) : Prop :=
  ∀ u task c, s.task u = some task → task.claimToken = some c → c ∈ D ∨ target = some u

/-- Moves that take no task but `target` and spend the tokens of settled tasks only. -/
structure Gentle (P : Label → Prop) (D : List Name) (target : Option Tid) (s : Store) : Prop where
  spends : ∀ l, P l → l.spendsSettled s
  create : ∀ a, P (.createTask a) → s.HasNode a.assignedNode
  take : ∀ n key t c d, P (.take n key t c d) → target = some t ∧ c ∉ D

/-- What gentle moves leave. -/
structure Undisturbed (issued : NodeId → Token → Prop) (D : List Name) (target : Option Tid)
    (s s' : Store) : Prop where
  intact : Intact issued s'
  tokens : TokensIn D target s'
  settled : ∀ t, s.Settled t → s'.Settled t
  hasNode : ∀ nodeId, s.HasNode nodeId → s'.HasNode nodeId

theorem Via.kept_intact {P : Label → Prop} {D : List Name} {target : Option Tid}
    (hv : Via P s s') (h : Intact issued s) (hD : TokensIn D target s)
    (hg : Gentle P D target s) : Undisturbed issued D target s s' := by
  refine hv.invariant (fun s₁ l s₂ hl hm h₁ ↦ ?_) ⟨h, hD, fun _ ↦ id, fun _ ↦ id⟩
  have hspends : l.spendsSettled s₁ := fun n t he ↦ h₁.settled t (hg.spends l hl n t he)
  refine ⟨h₁.intact.move hm hspends (fun a ha ↦ h₁.hasNode _ (hg.create a (ha ▸ hl))) ?_, ?_,
    fun t ht ↦ hm.settled hspends (h₁.settled t ht), fun _ hn ↦ hm.hasNode (h₁.hasNode _ hn)⟩
  · rintro n key t c d rfl u task hu hc
    obtain ⟨htarget, hnew⟩ := hg.take n key t c d hl
    rcases h₁.tokens u task c hu hc with hmem | hother
    · exact absurd hmem hnew
    · rw [htarget, Option.some.injEq] at hother
      exact hother.symm
  · intro u task c hu hc
    rcases hm.claimToken_cases hu hc with ⟨task₁, hu₁, hc₁, -⟩ | ⟨n, key, d, rfl, -⟩
    · exact h₁.tokens u task₁ c hu₁ hc₁
    · exact .inr (hg.take n key u c d hl).1

/-- The task an operation has in hand when it stops: its whole moves led to a state where the task
was in its place, and the first writes of the next move, which are for this task, to the state that
is left. -/
def InHand (s s' : Store) (t : Tid) : Prop :=
  ∃ s₁ draws, Via (fun _ ↦ True) s s₁ ∧ s₁.Settled t ∧ Half s₁ t draws s'

/-- What a stopped operation leaves: at most one task has come loose, the one in hand. -/
structure Shaken (issued : NodeId → Token → Prop) (s s' : Store) : Prop where
  intact : Intact issued s'
  one : ∀ t u, s.Settled t → ¬ s'.Settled t → s.Settled u → ¬ s'.Settled u → t = u
  hand : ∀ t, s.Settled t → ¬ s'.Settled t → InHand s s' t

theorem Undisturbed.shaken {D : List Name} {target : Option Tid}
    (h : Undisturbed issued D target s s') : Shaken issued s s' :=
  ⟨h.intact, fun t _ ht hno ↦ absurd (h.settled t ht) hno,
    fun t ht hno ↦ absurd (h.settled t ht) hno⟩

theorem Stopped.shaken {P : Label → Prop} {D draws : List Name} (hs : Stopped P draws s s')
    (h : Intact issued s) (hD : TokensIn D none s) (hg : Gentle P D none s)
    (hnew : ∀ n, ∀ c ∈ draws, ¬ issued n c) (hfresh : ∀ c ∈ draws, c ∉ D) :
    Shaken issued s s' := by
  obtain ⟨s₁, hv, rfl | ⟨tid, draws', hh, hsub⟩⟩ := hs
  · exact (hv.kept_intact h hD hg).shaken
  · have hk := hv.kept_intact h hD hg
    -- what has come loose is the task in hand
    have heq : ∀ v, s.Settled v → ¬ s'.Settled v → v = tid := fun v hv' hnov ↦
      by_contra fun hne ↦ hnov (hh.settled hne (hk.settled v hv'))
    refine ⟨hk.intact.half hh (fun n c hc ↦ hnew n c (hsub hc)) fun c hc u task hu ht ↦ ?_,
      fun t u ht hno hu hno' ↦ ?_, fun t ht hno ↦ ?_⟩
    · rcases hk.tokens u task c hu ht with hmem | hnone
      · exact hfresh c (hsub hc) hmem
      · cases hnone
    · rw [heq t ht hno, heq u hu hno']
    · obtain rfl := heq t ht hno
      exact ⟨s₁, draws', hv.mono fun _ _ ↦ trivial, hk.settled t ht, hh⟩

theorem Via.known {P : Label → Prop} {D : List Name} (hv : Via P s s') (h : Known D s)
    (hP : ∀ l, P l → ∀ x ∈ l.draws, x ∈ D) : Known D s' :=
  hv.invariant (fun _ l _ hl hm h₁ ↦ h₁.move hm (hP l hl)) h

theorem Stopped.known {P : Label → Prop} {D draws : List Name} (hs : Stopped P draws s s')
    (h : Known D s) (hP : ∀ l, P l → ∀ x ∈ l.draws, x ∈ D) (hD : draws ⊆ D) : Known D s' := by
  obtain ⟨s₁, hv, rfl | ⟨tid, draws', hh, hsub⟩⟩ := hs
  · exact hv.known h hP
  · exact (hv.known h hP).half hh (List.Subset.trans hsub hD)

end Steps

/-! ## Runs with crashes -/

/-- One step of a run with crashes. -/
structure Event where
  before : Store
  action : Action
  /-- The answer, if the server did not stop before it. -/
  response : Option Response
  after : Store

/-- The ids and tokens a run with crashes has drawn. -/
def drawnBy (evs : List Event) : List Name := evs.flatMap (·.action.draws)

/-- A claim has answered the node with the token. -/
def Issued (evs : List Event) (n : NodeId) (c : Token) : Prop :=
  ∃ e ∈ evs, ∃ auth claimToken downloadToken answer,
    e.action = .claim auth claimToken downloadToken ∧ auth.nodeId = some n ∧
      e.response = some (.claimed answer) ∧ answer.claimToken = some c

/-- What actions a run can go on with.  Draws are random: no value is drawn twice, and a node
presents no claim token that has been drawn and not sent to it.  Tasks are planned for registered
nodes. -/
structure Possible (evs : List Event) (s : Store) (a : Action) : Prop where
  fresh : a.draws.Nodup ∧ ∀ x ∈ a.draws, x ∉ drawnBy evs
  token : ∀ auth tid c body, a = .result auth tid (some c) body → c ∈ drawnBy evs →
    ∃ n, auth.nodeId = some n ∧ Issued evs n c
  planned : ∀ b, a = .createTask b → s.HasNode b.assignedNode

/-- Where the server can stop in `create_task` once its task hash is written, in
`claim_task_for_node`, in the two failover passes and in `requeue_task`. -/
inductive CrashPoint [Sha256] (s : Store) : Action → Store → Prop
  | createTask {a s'} : Visits (createTask a) s s' → s'.task a.tid ≠ none →
      CrashPoint s (.createTask a) s'
  | claim {auth claimToken downloadToken s'} :
      Visits (claimTask auth claimToken downloadToken) s s' →
      CrashPoint s (.claim auth claimToken downloadToken) s'
  | sweep {s'} : Visits sweepStaleWork s s' → CrashPoint s .sweep s'
  | availableNodes {runtime s'} : Visits requeueStaleTasks s s' →
      CrashPoint s (.availableNodes runtime) s'
  | result {auth tid claimToken body nodeId s'} : s.rejects auth tid claimToken body →
      auth.nodeId = some nodeId → Visits (requeueTask tid none) (s.strike nodeId) s' →
      CrashPoint s (.result auth tid claimToken body) s'

/-- A run whose steps end or stop in the middle, and the state it leads to. -/
inductive CrashRun [Sha256] : List Event → Store → Prop
  | start (deployment userApi nodeRegistrationToken) :
      CrashRun [] (Store.initial deployment userApi nodeRegistrationToken)
  | step {evs s a r s'} : CrashRun evs s → Possible evs s a → Runs (handle a) s r s' →
      CrashRun (evs ++ [⟨s, a, some r, s'⟩]) s'
  | crash {evs s a s'} : CrashRun evs s → Possible evs s a → CrashPoint s a s' →
      CrashRun (evs ++ [⟨s, a, none, s'⟩]) s'

/-- A crash leaves a task stranded that was not. -/
def Event.strands (e : Event) (t : Tid) : Prop :=
  e.response = none ∧ ¬ e.before.Stranded t ∧ e.after.Stranded t

section Runs

variable [Sha256] {evs : List Event} {s s' : Store} {a : Action} {r : Response} {e : Event}

omit [Sha256] in
theorem drawnBy_append_singleton : drawnBy (evs ++ [e]) = drawnBy evs ++ e.action.draws := by
  simp only [drawnBy, List.flatMap_append, List.flatMap_cons, List.flatMap_nil, List.append_nil]

omit [Sha256] in
/-- Who presents the token of a task has been sent it, so the task is not adrift. -/
theorem Intact.settled_of_submits {auth : NodeAuth} {tid : Tid} {claimToken : Option Token}
    {body : ResultBody} {n : NodeId} {task : Task} (h : Intact (Issued evs) s)
    (hk : Known (drawnBy evs) s) (hp : Possible evs s (.result auth tid claimToken body))
    (hmay : MaySubmit s auth tid claimToken n task) : s.Settled tid := by
  intro task' ht'
  obtain rfl := Option.some.inj (hmay.stored.symm.trans ht')
  obtain ⟨c, hc, rfl⟩ := hmay.token
  refine (h.placed tid task ht').resolve_right fun hadrift ↦ ?_
  obtain ⟨n', hn', hissued⟩ := hp.token auth tid c body rfl (hk.claimToken tid task c ht' hc)
  rw [hmay.auth.nodeId, Option.some.injEq] at hn'
  subst hn'
  rcases hadrift.place with ⟨-, hnone, -⟩ | ⟨-, m, c', ha, hc', -, hno⟩
  · rw [hc] at hnone
    cases hnone
  · rw [hmay.assigned, Option.some.injEq] at ha
    rw [hc, Option.some.injEq] at hc'
    exact hno (ha ▸ hc' ▸ hissued)

omit [Sha256] in
/-- New answers of claims leave a state intact: the token of a claim is that of the task its node
points at. -/
theorem Intact.issue {issued issued' : NodeId → Token → Prop} (h : Intact issued s)
    (hnew : ∀ n c, issued' n c → issued n c ∨ ∃ t task, s.pointer n = some t ∧
      s.task t = some task ∧ task.claimToken = some c) : Intact issued' s where
  placed t task ht := by
    refine (h.placed t task ht).imp id fun hadrift ↦ ⟨hadrift.waits, hadrift.place.imp id ?_⟩
    rintro ⟨hlive, n, c, ha, hc, hp, hno⟩
    refine ⟨hlive, n, c, ha, hc, hp, fun hissued ↦ ?_⟩
    rcases hnew n c hissued with hold | ⟨u, task', hp', hu, hc'⟩
    · exact hno hold
    · exact hp (h.tokens t u task task' c ht hu hc hc' ▸ hp')
  assigned := h.assigned
  tokens := h.tokens

/-- What an action may do to a state that is intact. -/
theorem Possible.gentle (h : Intact (Issued evs) s) (hk : Known (drawnBy evs) s)
    (hp : Possible evs s a) (hr : Runs (handle a) s r s') :
    ∃ P target, Via P s s' ∧ Gentle P (drawnBy evs) target s := by
  have hnew := hk.newTo hp.fresh.2
  have hv := Runs.via hnew hr
  by_cases hres : ∃ auth tid claimToken body, a = .result auth tid claimToken body
  · obtain ⟨auth, tid, claimToken, body, rfl⟩ := hres
    have hmay : s' = s ∨ s.Settled tid := by
      have hsub := (wp_submitTaskResult s auth tid claimToken body).elim hr
      cases hsub with
      | refused => exact .inl rfl
      | rejected hmay | completed hmay | failed hmay =>
        exact .inr (h.settled_of_submits hk hp hmay)
    rcases hmay with rfl | hset
    · exact ⟨fun _ ↦ False, none, .refl _ _, ⟨fun _ hl ↦ hl.elim, fun _ hl ↦ hl.elim,
        fun _ _ _ _ _ hl ↦ hl.elim⟩⟩
    · refine ⟨_, none, hv, ⟨fun l hl n t he ↦ ?_, fun a ha ↦ ?_, fun n key t c d hl ↦ ?_⟩⟩
      · have htid : t = tid := by
          cases l with
          | complete n' t' bytes =>
            obtain ⟨_, _, _, ha, -⟩ := hl.complete
            cases ha
            exact (Prod.mk.inj (Option.some.inj he)).2.symm
          | fail n' t' =>
            obtain ⟨_, _, _, ha, -⟩ := hl.fail
            cases ha
            exact (Prod.mk.inj (Option.some.inj he)).2.symm
          | reject n' t' =>
            obtain ⟨_, _, _, ha, -⟩ := hl.reject
            cases ha
            exact (Prod.mk.inj (Option.some.inj he)).2.symm
          | _ => cases he
        exact htid ▸ hset
      · cases ha.createTask
      · obtain ⟨_, ha, -⟩ := hl.take
        cases ha
  · refine ⟨_, r.claimedTid, hv, ⟨fun l hl n t he ↦ ?_, fun b hb ↦ ?_, fun n key t c d hl ↦ ?_⟩⟩
    · -- only submissions spend tokens
      cases l with
      | complete =>
        obtain ⟨_, _, _, ha, -⟩ := hl.complete
        exact (hres ⟨_, _, _, _, ha⟩).elim
      | fail =>
        obtain ⟨_, _, _, ha, -⟩ := hl.fail
        exact (hres ⟨_, _, _, _, ha⟩).elim
      | reject =>
        obtain ⟨_, _, _, ha, -⟩ := hl.reject
        exact (hres ⟨_, _, _, _, ha⟩).elim
      | _ => cases he
    · exact hp.planned b hb.createTask
    · obtain ⟨auth, rfl, -, hclaimed⟩ := hl.take
      exact ⟨hclaimed, hp.fresh.2 c List.mem_cons_self⟩

omit [Sha256] in
theorem Known.tokensIn {D : List Name} (h : Known D s) (target : Option Tid) :
    TokensIn D target s := fun u task c hu hc ↦ .inl (h.claimToken u task c hu hc)

omit [Sha256] in
/-- What a step leaves that stops within an operation that spends no token and takes no task. -/
theorem Possible.shaken {P : Label → Prop} {draws : List Name} (hp : Possible evs s a)
    (h : Intact (Issued evs) s) (hk : Known (drawnBy evs) s)
    (hissued : ∀ n c, Issued evs n c → c ∈ drawnBy evs) (hs : Stopped P draws s s')
    (hg : Gentle P (drawnBy evs) none s) (hdraws : ∀ l, P l → ∀ x ∈ l.draws, x ∈ a.draws)
    (hsub : draws ⊆ a.draws) :
    Shaken (Issued evs) s s' ∧ Known (drawnBy evs ++ a.draws) s' := by
  have hk' : Known (drawnBy evs ++ a.draws) s := hk.mono fun x hx ↦ List.mem_append_left _ hx
  have hfresh : ∀ c ∈ draws, c ∉ drawnBy evs := fun c hc ↦ hp.fresh.2 c (hsub hc)
  refine ⟨hs.shaken h (hk.tokensIn none) hg (fun n c hc hi ↦ hfresh c hc (hissued n c hi))
    hfresh, hs.known hk' (fun l hl x hx ↦ ?_) fun x hx ↦ ?_⟩
  · exact List.mem_append_right _ (hdraws l hl x hx)
  · exact List.mem_append_right _ (hsub hx)

omit [Sha256] in
/-- What a claim leaves wherever it stops. -/
theorem Possible.shaken_claim {auth : NodeAuth} {claimToken downloadToken : Token}
    (hp : Possible evs s (.claim auth claimToken downloadToken)) (h : Intact (Issued evs) s)
    (hk : Known (drawnBy evs) s) (hissued : ∀ n c, Issued evs n c → c ∈ drawnBy evs)
    (hv : Visits (claimTask auth claimToken downloadToken) s s') :
    Shaken (Issued evs) s s' ∧ Known (drawnBy evs ++ [claimToken, downloadToken]) s' := by
  have hk' : Known (drawnBy evs ++ [claimToken, downloadToken]) s :=
    hk.mono fun x hx ↦ List.mem_append_left _ hx
  rcases always_claimTask s auth claimToken downloadToken s' hv with rfl | ⟨n, -, hst | ⟨tid, hv⟩⟩
  · exact ⟨⟨h, fun t _ ht hno ↦ absurd ht hno, fun t ht hno ↦ absurd ht hno⟩, hk'⟩
  · refine hp.shaken h hk hissued hst
      ⟨fun l hl n t he ↦ ?_, fun b hb ↦ hb.elim, fun n key t c d hl ↦ ?_⟩
      (fun l hl x hx ↦ ?_) (List.Subset.refl _)
    · cases l with
      | complete | fail | reject => exact hl.elim
      | _ => cases he
    · cases hl.2.2.2
    · cases l with
      | take => cases hl.2.2.2
      | clearPointer | reclaim | discard | bounce => cases hx
      | _ => exact hl.elim
  · -- the claim has made both of its writes
    have hg : Gentle (Label.ofClaim n claimToken downloadToken (some tid)) (drawnBy evs)
        (some tid) s := by
      refine ⟨fun l hl n t he ↦ ?_, fun b hb ↦ hb.elim, fun n key t c d hl ↦ ?_⟩
      · cases l with
        | complete | fail | reject => exact hl.elim
        | _ => cases he
      · obtain ⟨-, rfl, -, htid⟩ := hl
        exact ⟨htid, hp.fresh.2 c List.mem_cons_self⟩
    refine ⟨(hv.kept_intact h (hk.tokensIn _) hg).shaken, hv.known hk' fun l hl x hx ↦ ?_⟩
    · cases l with
      | take =>
        obtain ⟨-, rfl, rfl, -⟩ := hl
        exact List.mem_append_right _ hx
      | clearPointer | reclaim | discard | bounce => cases hx
      | _ => exact hl.elim

/-- What a crash leaves of a state that is intact. -/
theorem CrashPoint.shaken (h : Intact (Issued evs) s) (hk : Known (drawnBy evs) s)
    (hissued : ∀ n c, Issued evs n c → c ∈ drawnBy evs) (hp : Possible evs s a)
    (hc : CrashPoint s a s') :
    Shaken (Issued evs) s s' ∧ Known (drawnBy evs ++ a.draws) s' := by
  cases hc with
  | @createTask b _ hv hsome =>
    have hst := (always_createTask b (hk.newTo hp.fresh.2) (hp.planned b rfl) s' hv).resolve_left
      hsome
    refine hp.shaken h hk hissued hst
      ⟨fun l hl n t he ↦ ?_, fun b' hb ↦ ?_, fun n key t c d hl ↦ ?_⟩
      (fun l hl x hx ↦ ?_) (List.Subset.refl _)
    · subst hl
      cases he
    · cases hb
      exact hp.planned b rfl
    · cases hl
    · subst hl
      exact hx
  | claim hv => exact hp.shaken_claim h hk hissued hv
  | sweep hv =>
    have hst := always_sweepStaleWork (D := []) s s' hv
    refine hp.shaken h hk hissued hst
      ⟨fun l hl n t he ↦ ?_, fun b hb ↦ hb.elim False.elim False.elim, fun n key t c d hl ↦ ?_⟩
      (fun l hl x hx ↦ ?_) (List.Subset.refl _)
    · cases l with
      | complete | fail | reject => exact hl.elim False.elim False.elim
      | _ => cases he
    · exact hl.elim False.elim False.elim
    · cases l with
      | clearPointer | reclaim | rehome | discard => cases hx
      | _ => exact hl.elim False.elim False.elim
  | availableNodes hv =>
    have hst := always_requeueStaleTasks (D := []) (.refl _ s) s' hv
    refine hp.shaken h hk hissued hst
      ⟨fun l hl n t he ↦ ?_, fun b hb ↦ hb.elim, fun n key t c d hl ↦ hl.elim⟩
      (fun l hl x hx ↦ ?_) (List.Subset.refl _)
    · cases l with
      | complete | fail | reject => exact hl.elim
      | _ => cases he
    · cases l with
      | clearPointer | reclaim => cases hx
      | _ => exact hl.elim
  | @result auth tid claimToken body n _ hrej hid hv =>
    obtain ⟨n', task, reason, hmay, -⟩ := hrej
    obtain rfl : n' = n := by
      have hid' := hmay.auth.nodeId
      rw [hid, Option.some.injEq] at hid'
      exact hid'.symm
    have hset : s.Settled tid := h.settled_of_submits hk hp hmay
    obtain ⟨node, ha⟩ := hmay.auth
    obtain ⟨-, hn, -⟩ := Store.authenticate_ok ha
    obtain ⟨token, hc, -⟩ := hmay.token
    have hlive : task.status.live = true :=
      (hset task hmay.stored).live_of_claimToken (by rw [hc]; exact Option.some_ne_none token)
    have hst := always_requeueTask_rejected hn hmay.stored hmay.assigned hc hlive s' hv
    refine hp.shaken h hk hissued hst
      ⟨fun l hl m t he ↦ ?_, fun b hb ↦ ?_, fun m key t c d hl ↦ ?_⟩
      (fun l hl x hx ↦ ?_) (List.Subset.refl _)
    · subst hl
      exact (Prod.mk.inj (Option.some.inj he)).2 ▸ hset
    · cases hb
    · cases hl
    · subst hl
      cases hx

/-- What holds in every state of a run with crashes. -/
structure CrashRun.Inv (evs : List Event) (s : Store) : Prop where
  known : Known (drawnBy evs) s
  intact : Intact (Issued evs) s
  issued : ∀ n c, Issued evs n c → c ∈ drawnBy evs
  stranded : ∀ t, ¬ s.Settled t → ∃ e ∈ evs, e.strands t
  one : ∀ e ∈ evs, ∀ t u, e.strands t → e.strands u → t = u
  hand : ∀ e ∈ evs, ∀ t, e.strands t → InHand e.before e.after t

theorem Possible.inv (h : CrashRun.Inv evs s) (hp : Possible evs s a)
    (hr : Runs (handle a) s r s') : CrashRun.Inv (evs ++ [⟨s, a, some r, s'⟩]) s' := by
  have hv := Runs.via (h.known.newTo hp.fresh.2) hr
  have hk' : Known (drawnBy (evs ++ [⟨s, a, some r, s'⟩])) s' := by
    rw [drawnBy_append_singleton]
    refine hv.known (h.known.mono fun x hx ↦ List.mem_append_left _ hx) fun l hl x hx ↦ ?_
    exact List.mem_append_right _ (hl.draws x hx)
  obtain ⟨P, target, hv, hg⟩ := hp.gentle h.intact h.known hr
  have hkept := hv.kept_intact h.intact (h.known.tokensIn target) hg
  -- a claim answers with the token of the task its node points at
  have hissue : ∀ n c, Issued (evs ++ [⟨s, a, some r, s'⟩]) n c → Issued evs n c ∨
      ∃ t task, s'.pointer n = some t ∧ s'.task t = some task ∧ task.claimToken = some c := by
    rintro n c ⟨e, he, auth, c', d', answer, ha, hid, hresp, hc⟩
    rcases List.mem_append.mp he with he | he
    · exact .inl ⟨e, he, auth, c', d', answer, ha, hid, hresp, hc⟩
    · rw [List.mem_singleton.mp he] at ha hresp
      obtain rfl := ha
      obtain rfl := Option.some.inj hresp
      rcases (wp_claimTask s auth c' d').elim hr with ⟨hf, -⟩ | ⟨m, hauth, hanswer⟩
      · cases hf
      · obtain ⟨task, ht, -, heq, node, hn, hcur⟩ := hanswer.answers answer rfl
        rw [hauth.nodeId, Option.some.injEq] at hid
        subst hid
        refine .inr ⟨answer.tid, task, Option.bind_eq_some_iff.mpr ⟨node, hn, hcur⟩, ht, ?_⟩
        rw [heq] at hc
        exact hc
  have hstrands : ∀ t, ¬ (Event.strands ⟨s, a, some r, s'⟩ t) := fun t hs ↦ by cases hs.1
  refine ⟨hk', hkept.intact.issue hissue, fun n c hi ↦ ?_, fun t ht ↦ ?_,
    fun e he t u ht hu ↦ ?_, fun e he t ht ↦ ?_⟩
  · rcases hissue n c hi with hold | ⟨t, task, -, ht, hc⟩
    · rw [drawnBy_append_singleton]
      exact List.mem_append_left _ (h.issued n c hold)
    · exact hk'.claimToken t task c ht hc
  · obtain ⟨e, he, hs⟩ := h.stranded t fun hset ↦ ht (hkept.settled t hset)
    exact ⟨e, List.mem_append_left _ he, hs⟩
  · rcases List.mem_append.mp he with he | he
    · exact h.one e he t u ht hu
    · rw [List.mem_singleton.mp he] at ht
      exact (hstrands t ht).elim
  · rcases List.mem_append.mp he with he | he
    · exact h.hand e he t ht
    · rw [List.mem_singleton.mp he] at ht
      exact (hstrands t ht).elim

theorem CrashPoint.inv (h : CrashRun.Inv evs s) (hp : Possible evs s a) (hc : CrashPoint s a s') :
    CrashRun.Inv (evs ++ [⟨s, a, none, s'⟩]) s' := by
  obtain ⟨hshaken, hk'⟩ := hc.shaken h.intact h.known h.issued hp
  have hissue : ∀ n c, Issued (evs ++ [⟨s, a, none, s'⟩]) n c → Issued evs n c := by
    rintro n c ⟨e, he, auth, c', d', answer, ha, hid, hresp, hc⟩
    rcases List.mem_append.mp he with he | he
    · exact ⟨e, he, auth, c', d', answer, ha, hid, hresp, hc⟩
    · rw [List.mem_singleton.mp he] at hresp
      cases hresp
  -- what the crash strands is what it has unsettled
  have hstrands : ∀ t, Event.strands ⟨s, a, none, s'⟩ t ↔ s.Settled t ∧ ¬ s'.Settled t := by
    intro t
    rw [Event.strands, h.intact.stranded_iff, hshaken.intact.stranded_iff, not_not]
    exact and_iff_right rfl
  refine ⟨by rwa [drawnBy_append_singleton], hshaken.intact.issue fun n c hi ↦ .inl (hissue n c hi),
    fun n c hi ↦ ?_, fun t ht ↦ ?_, fun e he t u ht hu ↦ ?_, fun e he t ht ↦ ?_⟩
  · rw [drawnBy_append_singleton]
    exact List.mem_append_left _ (h.issued n c (hissue n c hi))
  · by_cases hset : s.Settled t
    · exact ⟨_, List.mem_append_right _ List.mem_cons_self, (hstrands t).mpr ⟨hset, ht⟩⟩
    · obtain ⟨e, he, hs⟩ := h.stranded t hset
      exact ⟨e, List.mem_append_left _ he, hs⟩
  · rcases List.mem_append.mp he with he | he
    · exact h.one e he t u ht hu
    · rw [List.mem_singleton.mp he, hstrands] at ht hu
      exact hshaken.one t u ht.1 ht.2 hu.1 hu.2
  · rcases List.mem_append.mp he with he | he
    · exact h.hand e he t ht
    · rw [List.mem_singleton.mp he] at ht ⊢
      exact hshaken.hand t ((hstrands t).mp ht).1 ((hstrands t).mp ht).2

theorem CrashRun.inv (h : CrashRun evs s) : CrashRun.Inv evs s := by
  induction h with
  | start =>
    refine ⟨.initial _ _ _, ⟨fun t task ht ↦ ?_, fun t task ht ↦ ?_, fun t u task task' c ht ↦ ?_⟩,
      fun n c hi ↦ ?_, fun t ht ↦ ?_, fun _ he ↦ absurd he List.not_mem_nil,
      fun _ he ↦ absurd he List.not_mem_nil⟩
    · cases ht
    · cases ht
    · cases ht
    · obtain ⟨e, he, -⟩ := hi
      cases he
    · exact (ht fun task hs ↦ by cases hs).elim
  | step _ hp hr ih => exact hp.inv ih hr
  | crash _ hp hc ih => exact hc.inv ih hp

/-- Every task that is not finished is recoverable, unless a crash has stranded it; and a crash
strands one task at most, the one in hand. -/
theorem crash_strands_one (h : CrashRun evs s) :
    (∀ t task, s.task t = some task → task.status.finished = false →
      s.Recoverable t task ∨ ∃ e ∈ evs, e.strands t) ∧
    ∀ e ∈ evs, (∀ t u, e.strands t → e.strands u → t = u) ∧
      ∀ t, e.strands t → InHand e.before e.after t := by
  refine ⟨fun t task ht hf ↦ ?_, fun e he ↦ ⟨h.inv.one e he, h.inv.hand e he⟩⟩
  by_cases hset : s.Settled t
  · exact .inl ((hset task ht).recoverable (h.inv.intact.assigned t task ht) hf)
  · exact .inr (h.inv.stranded t hset)

/-- An entry of a run without crashes. -/
def Entry.event (e : Entry) : Event := ⟨e.before, e.action, some e.response, e.after⟩

/-- A run of actions that spend no token, as a run with crashes. -/
theorem CrashRun.perform {fuel : Nat} {actions : List Action} {entries : List Entry}
    (hr : CrashRun evs s) (h : perform fuel s actions = some entries)
    (hd : (drawnBy evs ++ actions.flatMap Action.draws).Nodup)
    (htoken : ∀ a ∈ actions, ∀ auth tid c body, a ≠ .result auth tid (some c) body)
    (hplanned : ∀ e ∈ entries, ∀ b, e.action = .createTask b →
      e.before.HasNode b.assignedNode) :
    CrashRun (evs ++ entries.map Entry.event) (lastStore s entries) := by
  induction actions generalizing evs s entries with
  | nil =>
    cases h
    rw [List.map_nil, List.append_nil]
    exact hr
  | cons a as ih =>
    rw [TandemAio.perform] at h
    cases he : exec fuel (handle a) s with
    | none => simp only [he, reduceCtorEq] at h
    | some r =>
      cases hp : TandemAio.perform fuel r.2 as with
      | none => simp only [he, hp, reduceCtorEq] at h
      | some entries' =>
        simp only [he, hp, Option.some.injEq] at h
        subst h
        rw [List.flatMap_cons, ← List.append_assoc] at hd
        have hpossible : Possible evs s a := by
          obtain ⟨-, ha, hdis⟩ := List.nodup_append.mp (List.nodup_append.mp hd).1
          refine ⟨⟨ha, fun x hx hxe ↦ hdis x hxe x hx rfl⟩, fun auth tid c body hres ↦ ?_, ?_⟩
          · exact absurd hres (htoken a List.mem_cons_self auth tid c body)
          · exact hplanned ⟨s, a, r.1, r.2⟩ List.mem_cons_self
        have hstep := ih (hr.step hpossible (runs_of_exec he)) hp
          (by rw [drawnBy_append_singleton]; exact hd)
          (fun a' ha' ↦ htoken a' (List.mem_cons_of_mem a ha'))
          fun e he' ↦ hplanned e (List.mem_cons_of_mem _ he')
        rw [List.append_assoc, List.singleton_append] at hstep
        cases entries' with
        | nil => exact hstep
        | cons e es =>
          rw [lastStore, List.getLast?_cons_cons] at *
          exact hstep

end Runs

/-! A claim that stops after its pop. -/

namespace Sample

/-- A node joins, and a task is planned for it. -/
def planned1 : List Action := [.tick second, join nodeA keyA none, create task1 (some nodeA)]

def planned1Store : Store := lastStore server (performed 200 server planned1)

/-- What a crash of a claim of `nodeA` leaves after some of its commands. -/
def claimCrash (commands : Nat) : Store :=
  execVisit commands (claimTask authA claim1 download1) planned1Store

def claimCrashEvents (commands : Nat) : List Event :=
  (performed 200 server planned1).map Entry.event ++
    [⟨planned1Store, .claim authA claim1 download1, none, claimCrash commands⟩]

/-- A task is created for a registered node. -/
def createdForMember (e : Entry) : Bool :=
  match e.action with
  | .createTask b => (b.assignedNode.bind e.before.node).isSome
  | _ => true

theorem crashRun_claimCrash (commands : Nat) :
    CrashRun (claimCrashEvents commands) (claimCrash commands) := by
  have hsome : (perform 200 server planned1).isSome = true := by decide +kernel
  have hdraws : (planned1.flatMap Action.draws).Nodup := by decide +kernel
  obtain ⟨entries, he⟩ := Option.isSome_iff_exists.mp hsome
  have hperf : performed 200 server planned1 = entries := by rw [performed, he, Option.getD_some]
  have hstore : lastStore server entries = planned1Store := by rw [planned1Store, hperf]
  -- the node of the task is registered
  have hplanned : ∀ e ∈ entries, ∀ b, e.action = .createTask b →
      e.before.HasNode b.assignedNode := by
    intro e hmem b hb n hn
    have hall : (performed 200 server planned1).all createdForMember = true := by decide +kernel
    rw [hperf] at hall
    have hone := List.all_eq_true.mp hall e hmem
    simp only [createdForMember, hb, hn, Option.bind_some] at hone
    exact Option.isSome_iff_exists.mp hone
  have hrun : CrashRun ([] ++ entries.map Entry.event) (lastStore server entries) :=
    (CrashRun.start _ _ _).perform he hdraws
      (fun a ha auth tid c body h ↦ by simp [planned1, join, create, h] at ha) hplanned
  rw [List.nil_append, hstore] at hrun
  rw [claimCrashEvents, hperf]
  refine hrun.crash ⟨⟨by decide, fun x hx ↦ ?_⟩, fun auth tid c body h ↦ (by cases h),
    fun b h ↦ (by cases h)⟩ (.claim (visits_execVisit commands _ _))
  have hdrawn : drawnBy (entries.map Entry.event) = planned1.flatMap Action.draws := by
    rw [← perform_actions he, drawnBy, List.flatMap_map, List.flatMap_map]
    rfl
  have hx : x = claim1 ∨ x = download1 := by simpa [Action.draws] using hx
  rw [hdrawn]
  rcases hx with rfl | rfl <;> decide +kernel

end Sample

open Sample in
/-- A crash of a claim right after its pop strands the task: it is queued and in no queue, and the
next claim of its node answers that there is none. -/
theorem crash_after_pop_strands :
    CrashRun (claimCrashEvents 8) (claimCrash 8) ∧
      ((claimCrash 8).task task1).map (·.status) = some .queued ∧
      (claimCrash 8).Stranded task1 ∧
      (exec 200 (claimTask authA claim2 download2) (claimCrash 8)).map (·.1) =
        some .noContent := by
  refine ⟨crashRun_claimCrash 8, by decide +kernel, ?_, by decide +kernel⟩
  have hfields : ((claimCrash 8).task task1).map (fun task ↦
      (task.status, task.assignedNode)) = some (.queued, some nodeA) := by decide +kernel
  have hempty : (claimCrash 8).queue (.node nodeA) = [] := by decide +kernel
  obtain ⟨task, ht, hf⟩ := Option.map_eq_some_iff.mp hfields
  obtain ⟨hs, ha⟩ := Prod.mk.inj hf
  refine ⟨task, ht, by rw [hs]; rfl, fun hr ↦ ?_⟩
  cases hr with
  | waits key _ hmem hkey =>
    rw [hkey, ha] at hmem
    exact absurd (hempty ▸ hmem) List.not_mem_nil
  | held n hlive =>
    rw [hs] at hlive
    cases hlive

open Sample in
theorem crash_strands_one_claim :
    let e : Event := ⟨planned1Store, .claim authA claim1 download1, none, claimCrash 8⟩
    ((claimCrash 12).task task1).map (·.status) = some .claimed ∧
      (∀ t task, (claimCrash 12).task t = some task → task.status.finished = false →
        (claimCrash 12).Recoverable t task ∨ ∃ e ∈ claimCrashEvents 12, e.strands t) ∧
      (∀ t u, e.strands t → e.strands u → t = u) ∧
      ∀ t, e.strands t → InHand e.before e.after t := by
  refine ⟨by decide +kernel, (crash_strands_one (crashRun_claimCrash 12)).1, ?_⟩
  exact (crash_strands_one (crashRun_claimCrash 8)).2 _
    (List.mem_append_right _ List.mem_cons_self)

end TandemAio
