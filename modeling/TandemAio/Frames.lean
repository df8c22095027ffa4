import TandemAio.Requests

/-!
# What a move leaves alone

A move is about one task and one node at most.  The hash, the queue entries and the pointer of
every other task stay as they are.
-/

namespace TandemAio

/-- The task whose hash or queue entries a move changes. -/
def Label.tid? : Label → Option Tid
  | .createTask a => some a.tid
  | .expire tid | .lease tid | .reclaim _ tid _ | .rehome _ tid _ | .discard _ tid | .bounce _ _ tid
  | .take _ _ tid _ _ | .start _ tid | .complete _ tid _ | .fail _ tid | .reject _ tid => some tid
  | _ => none

/-- How often an id waits in a queue. -/
def Store.waits (s : Store) (tid : Tid) (key : QueueKey) : Nat := (s.queue key).count tid

/-- The node whose pointer a move clears. -/
def Label.clears : Label → Option NodeId
  | .clearPointer nodeId | .reclaim nodeId _ _ | .complete nodeId _ _ | .fail nodeId _ =>
    some nodeId
  | _ => none

section Update

variable {α β : Type} [DecidableEq α] {f : α → Option β} {a : α} {b : β}

/-! An entry of a table after an update of one of them. -/

theorem update_map_cases {a' : α} {g : β → β}
    (h : Function.update f a' ((f a').map g) a = some b) :
    (a = a' ∧ ∃ b', f a = some b' ∧ b = g b') ∨ f a = some b := by
  by_cases he : a = a'
  · subst he
    rw [Function.update_self] at h
    obtain ⟨b', hb', rfl⟩ := Option.map_eq_some_iff.mp h
    exact .inl ⟨rfl, b', hb', rfl⟩
  · rw [Function.update_of_ne he] at h
    exact .inr h

theorem update_map_some (h : f a = some b) (a' : α) (g : β → β) :
    Function.update f a' ((f a').map g) a = some (g b) ∨
      Function.update f a' ((f a').map g) a = some b := by
  by_cases he : a = a'
  · subst he
    rw [Function.update_self, h]
    exact .inl rfl
  · rw [Function.update_of_ne he]
    exact .inr h

theorem update_map_isSome (h : f a ≠ none) (a' : α) (g : β → β) :
    Function.update f a' ((f a').map g) a ≠ none := by
  obtain ⟨b, hb⟩ := Option.ne_none_iff_exists'.mp h
  rcases update_map_some hb a' g with hnew | hold
  · rw [hnew]
    exact Option.some_ne_none _
  · rw [hold]
    exact Option.some_ne_none _

end Update

section Queues

variable {queue : QueueKey → List Tid} {key : QueueKey} {tid u : Tid} {rest : List Tid}

theorem count_update_push (key' : QueueKey) :
    (Function.update queue key (queue key ++ [tid]) key').count u =
      (queue key').count u + if key' = key ∧ u = tid then 1 else 0 := by
  by_cases hk : key' = key
  · subst hk
    rw [Function.update_self, List.count_append, List.count_singleton]
    simp only [beq_iff_eq, true_and, @eq_comm _ u]
  · rw [Function.update_of_ne hk]
    simp only [hk, false_and, if_false, Nat.add_zero]

theorem count_update_pop (h : queue key = tid :: rest) (key' : QueueKey) :
    (Function.update queue key (queue key).tail key').count u +
      (if key' = key ∧ u = tid then 1 else 0) = (queue key').count u := by
  by_cases hk : key' = key
  · subst hk
    rw [Function.update_self, h, List.tail_cons, List.count_cons]
    simp only [beq_iff_eq, true_and, @eq_comm _ u]
  · rw [Function.update_of_ne hk]
    simp only [hk, false_and, if_false, Nat.add_zero]

end Queues

namespace Store

variable {s : Store} {key : QueueKey} {tid u : Tid} {rest : List Tid}

theorem waits_requeue (assignedNode : Option NodeId) (runtime : Runtime) (key : QueueKey) :
    (s.requeue tid assignedNode runtime).waits u key =
      s.waits u key + if key = homeQueue assignedNode runtime ∧ u = tid then 1 else 0 := by
  rw [waits, requeue_queue, count_update_push, waits]

theorem waits_reject (nodeId : NodeId) (runtime : Runtime) (key : QueueKey) :
    (s.reject nodeId tid runtime).waits u key =
      s.waits u key + if key = homeQueue none runtime ∧ u = tid then 1 else 0 :=
  waits_requeue (s := s.strike nodeId) none runtime key

theorem waits_create (a : CreateTask) (key : QueueKey) :
    (s.create a).waits u key =
      s.waits u key + if key = homeQueue a.assignedNode a.runtime ∧ u = a.tid then 1 else 0 := by
  rw [waits, create_queue, count_update_push, waits]

theorem waits_pop (h : s.queue key = tid :: rest) (key' : QueueKey) :
    (s.pop key).waits u key' + (if key' = key ∧ u = tid then 1 else 0) = s.waits u key' := by
  rw [waits, pop_queue, count_update_pop h, waits]

theorem waits_take (h : s.queue key = tid :: rest) (nodeId : NodeId)
    (claimToken downloadToken : Token) (key' : QueueKey) :
    (s.take key nodeId tid claimToken downloadToken).waits u key' +
      (if key' = key ∧ u = tid then 1 else 0) = s.waits u key' := by
  rw [waits, take_queue, count_update_pop h, waits]

theorem mem_queue_iff : tid ∈ s.queue key ↔ s.waits tid key ≠ 0 := by
  rw [waits, ← Nat.pos_iff_ne_zero, List.count_pos_iff]

end Store

variable {s s' : Store} {l : Label}

theorem Move.task_frame (h : Move s l s') {t : Tid} (ht : l.tid? ≠ some t) :
    s'.task t = s.task t := by
  cases h <;> simp only [Label.tid?, ne_eq, Option.some.injEq] at ht <;>
    simp [Function.update_of_ne (Ne.symm ht)]

theorem Move.waits_frame (h : Move s l s') {t : Tid} (ht : l.tid? ≠ some t) (key : QueueKey) :
    s'.waits t key = s.waits t key := by
  have hne : ∀ {tid : Tid} {p : Prop}, l.tid? = some tid → ¬(p ∧ t = tid) :=
    fun htid h ↦ ht (by rw [htid, h.2])
  cases h with
  | createTask a => rw [Store.waits_create, if_neg (hne rfl), Nat.add_zero]
  | reclaim => exact (Store.waits_requeue _ _ key).trans (by rw [if_neg (hne rfl), Nat.add_zero])
  | reject => rw [Store.waits_reject, if_neg (hne rfl), Nat.add_zero]
  | rehome _ hq | bounce _ hq =>
    have hpop := Store.waits_pop (u := t) hq key
    rw [if_neg (hne rfl), Nat.add_zero] at hpop
    rw [Store.waits_requeue, if_neg (hne rfl), Nat.add_zero, hpop]
  | discard hq =>
    have hpop := Store.waits_pop (u := t) hq key
    rwa [if_neg (hne rfl), Nat.add_zero] at hpop
  | @take nodeId _ _ _ _ _ claimToken downloadToken _ _ _ hq =>
    have htake := Store.waits_take (u := t) hq nodeId claimToken downloadToken key
    rwa [if_neg (hne rfl), Nat.add_zero] at htake
  | _ => rfl

/-- Node hashes are never dropped. -/
theorem Move.node_stays (hm : Move s l s') {n : NodeId} (hn : s.node n ≠ none) :
    s'.node n ≠ none := by
  cases hm with
  | register a =>
    rw [Store.addMember_node, Store.putNode_node, Function.update_apply]
    split
    · exact Option.some_ne_none _
    · exact hn
  | heartbeat | clearPointer | reclaim | take | complete | fail => exact update_map_isSome hn _ _
  | _ => exact hn

/-! ## Where a value comes from -/

theorem Store.pointer_update (node : NodeId → Option Node) (n n' : NodeId) (f : Node → Node) :
    (Function.update node n ((node n).map f) n').bind (·.currentTask) =
      if n' = n then (node n).bind fun x ↦ (f x).currentTask
      else (node n').bind (·.currentTask) := by
  by_cases h : n' = n
  · subst h
    rw [Function.update_self, if_pos rfl]
    cases node n' <;> rfl
  · rw [Function.update_of_ne h, if_neg h]

theorem Move.pointer_cases (h : Move s l s') {nodeId : NodeId} {t : Tid}
    (hp : s'.pointer nodeId = some t) :
    s.pointer nodeId = some t ∨ ∃ key claimToken downloadToken,
      l = .take nodeId key t claimToken downloadToken := by
  have hclear : ∀ (n : NodeId) (f : Node → Node), (∀ x, (f x).currentTask = none) →
      (Function.update s.node n ((s.node n).map f) nodeId).bind (·.currentTask) = some t →
      s.pointer nodeId = some t := by
    intro n f hf h'
    rw [Store.pointer_update] at h'
    split at h'
    · obtain ⟨x, -, hx⟩ := Option.bind_eq_some_iff.mp h'
      rw [hf] at hx
      cases hx
    · exact h'
  cases h with
  | clearPointer | reclaim | complete | fail => exact .inl (hclear _ _ (fun _ ↦ rfl) hp)
  | @register a owner =>
    left
    rw [Store.pointer, Store.addMember_node, Store.putNode_node] at hp
    by_cases he : nodeId = a.nodeId
    · rw [he, Function.update_self] at hp
      cases hp
    · rwa [Function.update_of_ne he] at hp
  | @heartbeat n =>
    left
    rw [Store.pointer, Store.addMember_node, Store.modifyNode_node, Store.pointer_update] at hp
    split at hp
    · rename_i he
      rw [he]
      exact hp
    · exact hp
  | @take n node key tid _ _ c d _ hn =>
    rw [Store.pointer, Store.take_node, Store.pointer_update] at hp
    split at hp
    · rename_i he
      subst he
      rw [hn] at hp
      cases hp
      exact .inr ⟨key, c, d, rfl⟩
    · exact .inl hp
  | _ => exact .inl hp

theorem Move.pointer_cleared (h : Move s l s') {nodeId : NodeId} (hc : l.clears = some nodeId) :
    s'.pointer nodeId = none := by
  have hclear : ∀ f : Node → Node, (∀ x, (f x).currentTask = none) →
      (Function.update s.node nodeId ((s.node nodeId).map f) nodeId).bind (·.currentTask) =
        none := by
    intro f hf
    rw [Function.update_self]
    cases s.node nodeId with
    | none => rfl
    | some node => exact hf node
  cases h with
  | clearPointer | reclaim | complete | fail =>
    obtain rfl := Option.some.inj hc
    exact hclear _ fun _ ↦ rfl
  | _ => cases hc

theorem Move.pointer_kept (h : Move s l s') {nodeId : NodeId} {t : Tid}
    (hp : s.pointer nodeId = some t) (hc : l.clears ≠ some nodeId) :
    s'.pointer nodeId = some t := by
  cases h with
  | @clearPointer n | @reclaim n | @complete n | @fail n =>
    have hne : nodeId ≠ n := fun he ↦ hc (by rw [he]; rfl)
    exact (congrArg (·.bind (·.currentTask)) (Function.update_of_ne hne _ s.node)).trans hp
  | @register a owner hnew =>
    have hne : nodeId ≠ a.nodeId := by
      rintro rfl
      rw [Store.pointer, hnew.node] at hp
      cases hp
    rw [Store.pointer, Store.addMember_node, Store.putNode_node, Function.update_of_ne hne]
    exact hp
  | @heartbeat n =>
    rw [Store.pointer, Store.addMember_node, Store.modifyNode_node, Store.pointer_update]
    split
    · rename_i he
      rw [← he]
      exact hp
    · exact hp
  | @take n node key tid _ _ c d _ hn hidle =>
    have hne : nodeId ≠ n := by
      rintro rfl
      rw [Store.pointer, hn, Option.bind_some, hidle] at hp
      cases hp
    rw [Store.pointer, Store.take_node, Function.update_of_ne hne]
    exact hp
  | _ => exact hp

/-- The task that goes back to a queue, and the node it goes to. -/
def Label.requeues : Label → Option (Tid × Option NodeId)
  | .reclaim _ tid destination | .rehome _ tid destination => some (tid, destination)
  | .bounce _ _ tid | .reject _ tid => some (tid, none)
  | _ => none

/-- What a move writes to the hash of its task. -/
inductive Edit (s : Store) (t : Tid) (task : Task) : Label → Task → Prop
  | lease : Edit s t task (.lease t) (task.extendLease s.clock)
  | requeue {l destination} : l.requeues = some (t, destination) →
      Edit s t task l (task.requeue destination s.clock)
  | claim (nodeId key claimToken downloadToken) :
      Edit s t task (.take nodeId key t claimToken downloadToken)
        (task.claim nodeId claimToken downloadToken s.clock)
  | start (nodeId) : Edit s t task (.start nodeId t) (task.start s.clock)
  | complete (nodeId resultBytes) : Edit s t task (.complete nodeId t resultBytes)
      (task.complete (.result task.jobId t) s.clock)
  | fail (nodeId errorMessage) : Edit s t task (.fail nodeId t) (task.fail errorMessage s.clock)

/-- A task after a move is as it was, or new, or edited. -/
theorem Move.task_cases (h : Move s l s') {t : Tid} {task' : Task} (ht : s'.task t = some task') :
    (s.task t = some task' ∧ (l.tid? ≠ some t ∨ ∃ key, l = .discard key t)) ∨
      (∃ a, l = .createTask a ∧ a.tid = t ∧ task' = a.task s.clock) ∨
      ∃ task, s.task t = some task ∧ Edit s t task l task' := by
  by_cases hl : l.tid? = some t
  · -- the hash of the task of the move after an update
    have hmap : ∀ {tid : Tid} {f : Task → Task} {task : Task}, tid = t → s.task tid = some task →
        Function.update s.task tid ((s.task tid).map f) t = some task' →
        s.task t = some task ∧ task' = f task := by
      rintro tid f task rfl hs h'
      rw [Function.update_self, hs, Option.map_some, Option.some.injEq] at h'
      exact ⟨hs, h'.symm⟩
    cases h with
    | createTask a =>
      obtain rfl := Option.some.inj hl
      rw [Store.create_task, Function.update_self, Option.some.injEq] at ht
      exact .inr (.inl ⟨a, rfl, rfl, ht.symm⟩)
    | expire tid =>
      obtain rfl := Option.some.inj hl
      rw [Store.dropTask_task, Function.update_self] at ht
      cases ht
    | @discard key =>
      obtain rfl := Option.some.inj hl
      exact .inl ⟨ht, .inr ⟨key, rfl⟩⟩
    | lease hs =>
      obtain rfl := Option.some.inj hl
      obtain ⟨hs, rfl⟩ := hmap rfl hs ht
      exact .inr (.inr ⟨_, hs, .lease⟩)
    | reclaim _ _ _ hs | rehome _ _ hs | bounce _ _ hs | reject _ hs =>
      obtain rfl := Option.some.inj hl
      obtain ⟨hs, rfl⟩ := hmap rfl hs ht
      exact .inr (.inr ⟨_, hs, .requeue rfl⟩)
    | @take n _ key _ _ _ c d _ _ _ _ hs =>
      obtain rfl := Option.some.inj hl
      obtain ⟨hs, rfl⟩ := hmap rfl hs ht
      exact .inr (.inr ⟨_, hs, .claim n key c d⟩)
    | @start n _ _ _ _ _ _ hs =>
      obtain rfl := Option.some.inj hl
      obtain ⟨hs, rfl⟩ := hmap rfl hs ht
      exact .inr (.inr ⟨_, hs, .start n⟩)
    | @complete n _ _ _ _ bytes _ hs =>
      obtain rfl := Option.some.inj hl
      obtain ⟨hs, rfl⟩ := hmap rfl hs ht
      exact .inr (.inr ⟨_, hs, .complete n bytes⟩)
    | @fail n _ _ _ _ message _ hs =>
      obtain rfl := Option.some.inj hl
      obtain ⟨hs, rfl⟩ := hmap rfl hs ht
      exact .inr (.inr ⟨_, hs, .fail n message⟩)
    | _ => cases hl
  · rw [h.task_frame hl] at ht
    exact .inl ⟨ht, .inl hl⟩

/-- A claim token of a task was there before, or it is issued to the node that takes the task. -/
theorem Move.claimToken_cases (h : Move s l s') {t : Tid} {task' : Task} {c : Token}
    (ht : s'.task t = some task') (hc : task'.claimToken = some c) :
    (∃ task, s.task t = some task ∧ task.claimToken = some c ∧
      task.assignedNode = task'.assignedNode) ∨
    ∃ n key d, l = .take n key t c d ∧ task'.assignedNode = some n := by
  rcases h.task_cases ht with ⟨hs, -⟩ | ⟨a, rfl, rfl, rfl⟩ | ⟨task, hs, he⟩
  · exact .inl ⟨task', hs, hc, rfl⟩
  · cases hc
  · cases he with
    | lease | start => exact .inl ⟨task, hs, hc, rfl⟩
    | claim n key c' d =>
      obtain rfl := Option.some.inj hc
      exact .inr ⟨n, key, d, rfl, rfl⟩
    | requeue | complete | fail => cases hc

/-- The task of a move exists or waits, unless it is new or expires. -/
theorem Move.tid_cases (h : Move s l s') {t : Tid} (hl : l.tid? = some t) :
    (∃ a, l = .createTask a ∧ a.tid = t) ∨ l = .expire t ∨ (∃ task, s.task t = some task) ∨
      ∃ key, t ∈ s.queue key := by
  cases h with
  | createTask a => exact .inl ⟨a, rfl, Option.some.inj hl⟩
  | expire tid => exact .inr (.inl (Option.some.inj hl ▸ rfl))
  | @discard key tid rest hq =>
    obtain rfl := Option.some.inj hl
    exact .inr (.inr (.inr ⟨key, hq ▸ List.mem_cons_self⟩))
  | lease hs | reclaim _ _ _ hs | rehome _ _ hs | bounce _ _ hs | reject _ hs | take _ _ _ _ hs
  | start _ hs | complete _ _ hs | fail _ _ hs =>
    obtain rfl := Option.some.inj hl
    exact .inr (.inr (.inl ⟨_, hs⟩))
  | _ => cases hl

end TandemAio
