import TandemAio.Coherence

/-!
# What a claim returns

Nodes declare once which runtimes they support, and tasks are planned and requeued on nodes that
support them.  So a claim that finds a task at the front of a queue returns it.
-/

open Reasoning Reasoning.Prog

namespace TandemAio

/-! ## What nodes can run -/

section Moves

variable {s s' : Store} {l : Label}

/-- What a node has declared stays. -/
theorem Move.declared (hm : Move s l s') {n : NodeId} {node : Node} (hn : s.node n = some node) :
    ∃ node', s'.node n = some node' ∧ node'.supportsWasm = node.supportsWasm ∧
      node'.supportsCloudpickle = node.supportsCloudpickle := by
  cases hm with
  | register a owner hnew =>
    have hne : n ≠ a.nodeId := by
      rintro rfl
      rw [hnew.node] at hn
      cases hn
    refine ⟨node, ?_, rfl, rfl⟩
    rw [Store.addMember_node, Store.putNode_node, Function.update_of_ne hne, hn]
  | heartbeat | take | complete | fail | clearPointer | reclaim =>
    rcases update_map_some hn _ _ with hnew | hold
    · exact ⟨_, hnew, rfl, rfl⟩
    · exact ⟨node, hold, rfl, rfl⟩
  | _ => exact ⟨node, hn, rfl, rfl⟩

/-- What a node supports is what it has declared. -/
theorem nodeSupportsRuntime_congr {node node' : Node}
    (hwasm : node'.supportsWasm = node.supportsWasm)
    (hcloudpickle : node'.supportsCloudpickle = node.supportsCloudpickle)
    (runtime : Option Runtime) :
    nodeSupportsRuntime node' runtime = nodeSupportsRuntime node runtime := by
  unfold nodeSupportsRuntime
  rw [hwasm, hcloudpickle]

/-- A registered node that supports a runtime. -/
def Store.CanRun (s : Store) (n : NodeId) (runtime : Option Runtime) : Prop :=
  ∃ node, s.node n = some node ∧ nodeSupportsRuntime node runtime = true

theorem Move.canRun (hm : Move s l s') {n : NodeId} {runtime : Option Runtime}
    (h : s.CanRun n runtime) : s'.CanRun n runtime := by
  obtain ⟨node, hn, hsupports⟩ := h
  obtain ⟨node', hn', hwasm, hcloudpickle⟩ := hm.declared hn
  refine ⟨node', hn', ?_⟩
  rw [nodeSupportsRuntime_congr hwasm hcloudpickle]
  exact hsupports

/-- No node has declared anything about cloudpickle, and queued tasks wait for nodes that run
them. -/
structure Capable (s : Store) : Prop where
  silent : ∀ n node, s.node n = some node → node.supportsCloudpickle = none
  planned : ∀ t task n, s.task t = some task → task.status = .queued →
    task.assignedNode = some n → s.CanRun n (some task.runtime)

/-- A new task waits for a node that runs it. -/
def Label.plans (s : Store) : Label → Prop
  | .createTask a => ∀ n, a.assignedNode = some n → s.CanRun n (some a.runtime)
  | _ => True

theorem Capable.silent_move (h : Capable s) (hm : Move s l s') (n : NodeId) (node' : Node)
    (hn' : s'.node n = some node') : node'.supportsCloudpickle = none := by
  cases hn : s.node n with
  | some node =>
    obtain ⟨node₁, hn₁, -, hcloudpickle⟩ := hm.declared hn
    rw [hn', Option.some.injEq] at hn₁
    rw [hn₁, hcloudpickle]
    exact h.silent n node hn
  | none =>
    -- the node is new
    cases hm with
    | register a owner =>
      by_cases he : n = a.nodeId
      · subst he
        rw [Store.addMember_node, Store.putNode_node, Function.update_self,
          Option.some.injEq] at hn'
        rw [← hn']
        rfl
      · rw [Store.addMember_node, Store.putNode_node, Function.update_of_ne he, hn] at hn'
        cases hn'
    | heartbeat | take | complete | fail | clearPointer | reclaim =>
      rcases update_map_cases hn' with ⟨-, _, hold, -⟩ | hold
      · cases hn.symm.trans hold
      · cases hn.symm.trans hold
    | _ => cases hn.symm.trans hn'

/-- A task goes back to a node that runs it. -/
theorem Move.requeues_canRun (hm : Move s l s') {t : Tid} {task : Task} {n : NodeId}
    (ht : s.task t = some task) (hr : l.requeues = some (t, some n)) :
    s.CanRun n (some task.runtime) := by
  have hhead : ∀ {m : NodeId} {task₁ : Task} {t₁ : Tid}, s.task t₁ = some task₁ →
      some (t₁, (s.healthyNodeIds (some m) (some task₁.runtime)).head?) = some (t, some n) →
      s.CanRun n (some task.runtime) := by
    intro m task₁ t₁ ht₁ hsame
    obtain ⟨rfl, hd⟩ := Prod.mk.inj (Option.some.inj hsame)
    obtain rfl := Option.some.inj (ht.symm.trans ht₁)
    obtain ⟨-, -, node, hn, -, hsupports⟩ :=
      Store.mem_healthyNodeIds.mp (List.mem_of_mem_head? hd)
    exact ⟨node, hn, hsupports⟩
  cases hm with
  | reclaim _ _ _ ht₁ | rehome _ _ ht₁ => exact hhead ht₁ hr
  | bounce | reject => cases (Prod.mk.inj (Option.some.inj hr)).2
  | _ => cases hr

theorem Capable.move (h : Capable s) (hm : Move s l s') (hl : l.plans s) : Capable s' where
  silent := h.silent_move hm
  planned t task' n ht' hs' ha' := by
    rcases hm.task_cases ht' with ⟨ht, -⟩ | ⟨a, rfl, rfl, rfl⟩ | ⟨task, ht, he⟩
    · exact hm.canRun (h.planned t task' n ht hs' ha')
    · exact hm.canRun (hl n ha')
    · cases he with
      | lease => exact hm.canRun (h.planned t task n ht hs' ha')
      | @requeue _ destination hr =>
        obtain rfl : destination = some n := ha'
        have hruns : s.CanRun n (some task.runtime) := hm.requeues_canRun ht hr
        exact hm.canRun hruns
      | start | claim | complete | fail => cases hs'

end Moves

/-! ## Runs in which tasks are planned -/

section Runs

variable [Sha256] {tr : List Entry} {s s' : Store}

/-- The answer of `get_available_nodes` that lists a node for a task. -/
def Entry.offers (e : Entry) (n : NodeId) (taskRuntime : Runtime) : Prop :=
  ∃ runtime nodeIds, e.action = .availableNodes runtime ∧ e.response = .nodeIds nodeIds ∧
    n ∈ nodeIds ∧ (runtime = some taskRuntime ∨ runtime = none ∧ taskRuntime = .cloudpickle)

/-- Tasks are created for nodes that `get_available_nodes` has listed for them. -/
def PlansOffered (tr : List Entry) : Prop :=
  ∀ tr₁ e tr₂, tr = tr₁ ++ e :: tr₂ → ∀ a n, e.action = .createTask a → a.assignedNode = some n →
    ∃ e₀ ∈ tr₁, e₀.offers n a.runtime

omit [Sha256] in
theorem PlansOffered.init {e : Entry} (h : PlansOffered (tr ++ [e])) : PlansOffered tr := by
  rintro tr₁ e' tr₂ rfl
  exact h tr₁ e' (tr₂ ++ [e]) (by simp)

omit [Sha256] in
/-- A node that is listed runs what it is listed for. -/
theorem wp_getAvailableNodes (runtime : Option Runtime) :
    wp (getAvailableNodes runtime) (fun nodeIds s' ↦ ∀ n ∈ nodeIds, s'.CanRun n runtime) s := by
  simp only [getAvailableNodes, wp_bind, wp_getHealthyNodeIds]
  refine (wp_requeueStaleTasks s).mono fun _ s₁ _ n hn ↦ ?_
  obtain ⟨-, -, node, hnode, -, hsupports⟩ := Store.mem_healthyNodeIds.mp hn
  exact ⟨node, hnode, hsupports⟩

theorem Entry.offers.canRun {e : Entry} {n : NodeId} {taskRuntime : Runtime}
    (h : e.offers n taskRuntime) (hr : Runs (handle e.action) e.before e.response e.after) :
    e.after.CanRun n (some taskRuntime) := by
  obtain ⟨runtime, nodeIds, ha, hresponse, hn, hruntime⟩ := h
  rw [ha, hresponse] at hr
  have hlisted : wp (handle (.availableNodes runtime)) (fun r s' ↦
      ∀ nodeIds, r = .nodeIds nodeIds → ∀ n ∈ nodeIds, s'.CanRun n runtime) e.before := by
    rw [handle, wp_bind]
    refine (wp_getAvailableNodes runtime).mono fun nodeIds s₁ h₁ ↦ ?_
    refine (wp_pure _ _ s₁).mpr fun nodeIds' hsame n hn ↦ ?_
    cases hsame
    exact h₁ n hn
  have hcan := hlisted.elim hr nodeIds rfl n hn
  rcases hruntime with rfl | ⟨rfl, rfl⟩
  · exact hcan
  · -- a node that is listed for nothing in particular runs cloudpickle
    exact hcan

theorem Run.capable (h : Run tr s) (hplans : PlansOffered tr) :
    Capable s ∧ ∀ e ∈ tr, ∀ n runtime, e.offers n runtime → s.CanRun n (some runtime) := by
  induction h with
  | start => exact ⟨⟨fun _ _ hn ↦ (by cases hn), fun _ _ _ ht ↦ (by cases ht)⟩,
      fun _ he ↦ (by cases he)⟩
  | @step tr s a r s' hr hf hs ih =>
    obtain ⟨hcapable, hoffers⟩ := ih hplans.init
    have hv := Runs.via (hr.newTo hf) hs
    have hkept : ∀ {n runtime}, s.CanRun n runtime → s'.CanRun n runtime := fun hcan ↦
      hv.invariant (fun _ _ _ _ hm h₁ ↦ hm.canRun h₁) hcan
    constructor
    · refine (hv.invariant (I := fun s₁ ↦ Capable s₁ ∧
        ∀ n runtime, s.CanRun n runtime → s₁.CanRun n runtime)
        (fun s₁ l s₂ hl hm h₁ ↦ ⟨h₁.1.move hm ?_, fun n runtime hcan ↦
          hm.canRun (h₁.2 n runtime hcan)⟩) ⟨hcapable, fun _ _ hcan ↦ hcan⟩).1
      cases l with
      | createTask a' =>
        intro n ha
        obtain ⟨e₀, he₀, hoffer⟩ := hplans tr ⟨s, a, r, s'⟩ [] rfl a' n hl.createTask ha
        exact h₁.2 n _ (hoffers e₀ he₀ n _ hoffer)
      | _ => trivial
    · intro e he n runtime hoffer
      rcases List.mem_append.mp he with he | he
      · exact hkept (hoffers e he n runtime hoffer)
      · obtain rfl := List.mem_singleton.mp he
        exact hoffer.canRun hs

end Runs

/-! ## What a claim returns -/

/-- The first entry of the first queue that has one. -/
def Store.oldest (s : Store) : List QueueKey → Option (QueueKey × Tid)
  | [] => none
  | key :: keys =>
    match (s.queue key).head? with
    | some tid => some (key, tid)
    | none => s.oldest keys

/-- The queues a node takes tasks from, in order: its own, that of the unassigned tasks compiled to
WebAssembly if it runs these, and that of the other unassigned tasks. -/
def claimQueues (nodeId : NodeId) (node : Node) : List QueueKey :=
  if nodeSupportsRuntime node (some .wasm) then
    [.node nodeId, .unassigned .wasm, .unassigned .cloudpickle]
  else [.node nodeId, .unassigned .cloudpickle]

/-- What a claim takes that has found a task at the front of a queue, or found none. -/
def Store.takeOldest (s : Store) (nodeId : NodeId) (claimToken downloadToken : Token) :
    Option (QueueKey × Tid) → Store
  | none => s
  | some (key, tid) => s.take key nodeId tid claimToken downloadToken

section Claims

variable {s : Store} {nodeId : NodeId} {node : Node}

theorem Store.oldest_eq_none {keys : List QueueKey} :
    s.oldest keys = none ↔ ∀ key ∈ keys, s.queue key = [] := by
  induction keys with
  | nil => exact ⟨fun _ key hkey ↦ (by cases hkey), fun _ ↦ rfl⟩
  | cons key keys ih =>
    rw [Store.oldest, List.forall_mem_cons, ← ih]
    cases s.queue key with
    | nil => exact (and_iff_right rfl).symm
    | cons tid rest => exact ⟨fun h ↦ (by cases h), fun h ↦ (by cases h.1)⟩

theorem Store.oldest_eq_some {keys : List QueueKey} {key : QueueKey} {tid : Tid}
    (h : s.oldest keys = some (key, tid)) : key ∈ keys ∧ ∃ rest, s.queue key = tid :: rest := by
  induction keys with
  | nil => cases h
  | cons key' keys ih =>
    rw [Store.oldest] at h
    cases hq : s.queue key' with
    | nil =>
      rw [hq] at h
      obtain ⟨hmem, hrest⟩ := ih h
      exact ⟨List.mem_cons_of_mem _ hmem, hrest⟩
    | cons tid' rest =>
      rw [hq] at h
      obtain ⟨rfl, rfl⟩ := Prod.mk.inj (Option.some.inj h)
      exact ⟨List.mem_cons_self, rest, hq⟩

theorem Store.oldest_congr {s' : Store} (h : ∀ key, s'.queue key = s.queue key)
    (keys : List QueueKey) : s'.oldest keys = s.oldest keys := by
  induction keys with
  | nil => rfl
  | cons key keys ih => rw [Store.oldest, Store.oldest, h, ih]

theorem claimQueues_eq : claimQueues nodeId node =
    .node nodeId :: (nodeUnassignedRuntimes node).map fun runtime ↦
      unassignedQueueKey (some runtime) := by
  unfold claimQueues nodeUnassignedRuntimes
  split_ifs <;> rfl

/-- The queues a node takes tasks from are as it has declared. -/
theorem claimQueues_congr {node' : Node} (hwasm : node'.supportsWasm = node.supportsWasm)
    (hcloudpickle : node'.supportsCloudpickle = node.supportsCloudpickle) :
    claimQueues nodeId node' = claimQueues nodeId node := by
  unfold claimQueues
  rw [nodeSupportsRuntime_congr hwasm hcloudpickle]

/-- The pops of the unassigned queues take the first entry there is. -/
theorem Coherent.wp_popUnassigned (h : Coherent s) (hb : Backed s) (runtimes : List Runtime) :
    wp (firstSome runtimes fun runtime ↦ popQueueTid (unassignedQueueKey (some runtime)) nodeId true)
      (fun o s' ↦ match s.oldest (runtimes.map fun runtime ↦ unassignedQueueKey (some runtime)) with
        | none => o = none ∧ s' = s
        | some (key, tid) => o = some tid ∧ s' = s.pop key) s := by
  induction runtimes with
  | nil => exact (wp_ret none _ s).mpr ⟨rfl, rfl⟩
  | cons runtime runtimes ih =>
    rw [firstSome, wp_bind']
    have hkey : (unassignedQueueKey (some runtime)).readBy nodeId true := rfl
    refine (h.wp_popQueueTid hb hkey).mono fun o s₁ hpop ↦ ?_
    obtain ⟨rfl, rfl⟩ := hpop
    rw [List.map_cons, Store.oldest]
    cases hq : s.queue (unassignedQueueKey (some runtime)) with
    | nil =>
      rw [Store.pop_of_nil hq]
      exact ih
    | cons tid rest => exact (wp_ret _ _ _).mpr ⟨rfl, rfl⟩

theorem mem_nodeUnassignedRuntimes {runtime : Runtime} :
    runtime ∈ nodeUnassignedRuntimes node ↔
      runtime = .wasm ∧ nodeSupportsRuntime node (some .wasm) = true ∨ runtime = .cloudpickle := by
  unfold nodeUnassignedRuntimes
  split
  · rename_i hwasm
    simp [hwasm]
  · rename_i hwasm
    simp [hwasm]

/-- What waits in a queue that a node reads is what the node runs. -/
theorem Capable.runs_queued (h : Capable s) (hcoh : Coherent s) (hn : s.node nodeId = some node)
    {key : QueueKey} (hkey : key ∈ claimQueues nodeId node) {tid : Tid} {task : Task}
    (hmem : tid ∈ s.queue key) (ht : s.task tid = some task) :
    nodeSupportsRuntime node (some task.runtime) = true := by
  obtain ⟨hqueued, rfl⟩ := (hcoh tid task ht).queued_of_mem hmem
  cases ha : task.assignedNode with
  | some n =>
    rw [ha, homeQueue, claimQueues_eq, List.mem_cons] at hkey
    rcases hkey with hkey | hkey
    · obtain rfl : n = nodeId := QueueKey.node.inj hkey
      obtain ⟨node', hn', hsupports⟩ := h.planned tid task n ht hqueued ha
      rw [hn, Option.some.injEq] at hn'
      rw [hn']
      exact hsupports
    · obtain ⟨runtime, -, hcontra⟩ := List.mem_map.mp hkey
      cases hcontra
  | none =>
    rw [ha, homeQueue, claimQueues_eq, List.mem_cons] at hkey
    rcases hkey with hkey | hkey
    · cases hkey
    · obtain ⟨runtime, hruntime, hsame⟩ := List.mem_map.mp hkey
      obtain rfl : runtime = task.runtime := QueueKey.unassigned.inj hsame
      rcases mem_nodeUnassignedRuntimes.mp hruntime with ⟨hwasm, hsupports⟩ | hcloudpickle
      · rw [hwasm]
        exact hsupports
      · rw [hcloudpickle]
        unfold nodeSupportsRuntime
        rw [h.silent nodeId node hn]
        rfl

/-- A claim of a node that holds no live task takes the oldest entry, and says so. -/
theorem Capable.wp_claimFromQueues (h : Capable s) (hcoh : Coherent s) (hb : Backed s)
    (hn : s.node nodeId = some node.clearCurrentTask) (claimToken downloadToken : Token) :
    wp (claimFromQueues nodeId node claimToken downloadToken) (fun answer s' ↦
      s' = s.takeOldest nodeId claimToken downloadToken (s.oldest (claimQueues nodeId node)) ∧
      match s.oldest (claimQueues nodeId node) with
      | none => answer = none
      | some (_, tid) => ∃ task, s.task tid = some task ∧
          answer = some (tid, task.claim nodeId claimToken downloadToken s.clock)) s := by
  have hsame : claimQueues nodeId node.clearCurrentTask = claimQueues nodeId node := rfl
  -- what is popped can be claimed
  have htake : ∀ {key tid}, s.oldest (claimQueues nodeId node) = some (key, tid) →
      wp (claimPopped nodeId node tid claimToken downloadToken) (fun answer s' ↦
        s' = s.take key nodeId tid claimToken downloadToken ∧ ∃ task, s.task tid = some task ∧
          answer = some (tid, task.claim nodeId claimToken downloadToken s.clock)) (s.pop key) := by
    intro key tid holdest
    obtain ⟨hkey, rest, hq⟩ := Store.oldest_eq_some holdest
    have hmem : tid ∈ s.queue key := hq ▸ List.mem_cons_self
    obtain ⟨task, ht⟩ := hb key tid hmem
    have hruns := h.runs_queued hcoh hn (hsame ▸ hkey) hmem ht
    refine (wp_claimPopped_take claimToken downloadToken ht hruns).mono fun answer s' h' ↦ ?_
    exact ⟨h'.2, task, ht, h'.1⟩
  rw [claimFromQueues, wp_bind]
  have hread : (QueueKey.node nodeId).readBy nodeId false := rfl
  refine (hcoh.wp_popQueueTid hb hread).mono fun own s₁ hown ↦ ?_
  obtain ⟨rfl, rfl⟩ := hown
  cases hq : s.queue (.node nodeId) with
  | cons tid rest =>
    have holdest : s.oldest (claimQueues nodeId node) = some (.node nodeId, tid) := by
      rw [claimQueues_eq, Store.oldest, hq]
      rfl
    simp only [List.head?_cons, wp_bind, wp_pure]
    rw [holdest]
    exact htake holdest
  | nil =>
    have holdest : s.oldest (claimQueues nodeId node) = s.oldest
        ((nodeUnassignedRuntimes node).map fun runtime ↦ unassignedQueueKey (some runtime)) := by
      rw [claimQueues_eq, Store.oldest, hq]
      rfl
    simp only [List.head?_nil, wp_bind]
    rw [Store.pop_of_nil hq]
    refine (hcoh.wp_popUnassigned hb (nodeUnassignedRuntimes node)).mono fun o s₁ ho ↦ ?_
    rw [← holdest] at ho
    cases hfound : s.oldest (claimQueues nodeId node) with
    | none =>
      rw [hfound] at ho
      obtain ⟨rfl, rfl⟩ := ho
      exact (wp_pure _ _ _).mpr ⟨rfl, rfl⟩
    | some found =>
      rw [hfound] at ho
      obtain ⟨rfl, rfl⟩ := ho
      exact htake hfound

end Claims

/-- A node points at a task that is claimed or running. -/
def Store.holds (s : Store) (nodeId : NodeId) (tid : Tid) (task : Task) : Prop :=
  s.pointer nodeId = some tid ∧ s.task tid = some task ∧ task.status.live = true

/-- What a claim answers after its stale pass, and what it leaves. -/
structure WorkConserving (s : Store) (nodeId : NodeId) (node : Node)
    (claimToken downloadToken : Token) (answer : Option (Tid × Task)) (s' : Store) : Prop where
  /-- A live current task is answered as it is. -/
  resumes : ∀ tid task, s.holds nodeId tid task → answer = some (tid, task) ∧ s' = s
  /-- Otherwise the first entry of the first queue that has one is taken, and nothing else. -/
  takes : (∀ tid task, ¬ s.holds nodeId tid task) → ∀ key tid,
    s.oldest (claimQueues nodeId node) = some (key, tid) →
      s' = (s.clearPointer nodeId).take key nodeId tid claimToken downloadToken ∧
      s'.queue = Function.update s.queue key (s.queue key).tail ∧
      ∃ task, s.task tid = some task ∧
        answer = some (tid, task.claim nodeId claimToken downloadToken s.clock)
  none_iff : answer = none ↔ (∀ tid task, ¬ s.holds nodeId tid task) ∧
    ∀ key ∈ claimQueues nodeId node, s.queue key = []
  /-- Where there is nothing to take no queue changes. -/
  idle : answer = none → s' = s.clearPointer nodeId

section Answer

variable {s : Store} {nodeId : NodeId} {node : Node} {claimToken downloadToken : Token}

theorem WorkConserving.of_holds {tid : Tid} {task : Task} (h : s.holds nodeId tid task) :
    WorkConserving s nodeId node claimToken downloadToken (some (tid, task)) s := by
  obtain ⟨hp, ht, hlive⟩ := h
  refine ⟨?_, fun hfree ↦ absurd ⟨hp, ht, hlive⟩ (hfree tid task), ?_, fun h ↦ (by cases h)⟩
  · rintro tid' task' ⟨hp', ht', -⟩
    obtain rfl := Option.some.inj (hp.symm.trans hp')
    obtain rfl := Option.some.inj (ht.symm.trans ht')
    exact ⟨rfl, rfl⟩
  · refine ⟨fun h ↦ (by cases h), fun h ↦ ?_⟩
    exact absurd ⟨hp, ht, hlive⟩ (h.1 tid task)

theorem WorkConserving.of_free {answer : Option (Tid × Task)} {s' : Store}
    (hfree : ∀ tid task, ¬ s.holds nodeId tid task)
    (hs' : s' = (s.clearPointer nodeId).takeOldest nodeId claimToken downloadToken
      (s.oldest (claimQueues nodeId node)))
    (hanswer : match s.oldest (claimQueues nodeId node) with
      | none => answer = none
      | some (_, tid) => ∃ task, s.task tid = some task ∧
          answer = some (tid, task.claim nodeId claimToken downloadToken s.clock)) :
    WorkConserving s nodeId node claimToken downloadToken answer s' := by
  refine ⟨fun tid task h ↦ absurd h (hfree tid task), fun _ key tid holdest ↦ ?_, ?_, ?_⟩
  · rw [holdest] at hs' hanswer
    subst hs'
    exact ⟨rfl, rfl, hanswer⟩
  · rw [← Store.oldest_eq_none]
    cases holdest : s.oldest (claimQueues nodeId node) with
    | none =>
      rw [holdest] at hanswer
      exact ⟨fun _ ↦ ⟨hfree, rfl⟩, fun _ ↦ hanswer⟩
    | some found =>
      rw [holdest] at hanswer
      obtain ⟨task, -, hsome⟩ := hanswer
      exact ⟨fun h ↦ (by rw [hsome] at h; cases h), fun h ↦ (by cases h.2)⟩
  · intro hnone
    cases holdest : s.oldest (claimQueues nodeId node) with
    | none =>
      rw [holdest] at hs'
      exact hs'
    | some found =>
      rw [holdest] at hanswer
      obtain ⟨task, -, hsome⟩ := hanswer
      rw [hsome] at hnone
      cases hnone

/-- What clearing a pointer that is no live task keeps. -/
theorem Capable.clearPointer (h : Capable s) (hcoh : Coherent s) (hb : Backed s)
    (hn : s.node nodeId = some node)
    (hdone : ∀ tid task, node.currentTask = some tid → s.task tid = some task →
      task.status.live = false) :
    Capable (s.clearPointer nodeId) ∧ Coherent (s.clearPointer nodeId) ∧
      Backed (s.clearPointer nodeId) := by
  have hm : Move s (.clearPointer nodeId) (s.clearPointer nodeId) := .clearPointer hn hdone
  exact ⟨h.move hm trivial, hcoh.move hm, hb⟩

/-- `claim_task_for_node` after its stale pass. -/
theorem Capable.wp_claim (h : Capable s) (hcoh : Coherent s) (hb : Backed s)
    (hn : s.node nodeId = some node) (claimToken downloadToken : Token) :
    wp (do
      match ← Server.getNode nodeId with
      | none => return none
      | some node =>
        match node.currentTask with
        | none => claimFromQueues nodeId node claimToken downloadToken
        | some currentTid =>
          match ← Server.getTask currentTid with
          | some existing =>
            if existing.status.live then return some (currentTid, existing)
            else
              Server.hsetNode nodeId Node.clearCurrentTask
              claimFromQueues nodeId node claimToken downloadToken
          | none =>
            Server.hsetNode nodeId Node.clearCurrentTask
            claimFromQueues nodeId node claimToken downloadToken)
      (WorkConserving s nodeId node claimToken downloadToken) s := by
  have hpointer : s.pointer nodeId = node.currentTask := by
    rw [Store.pointer, hn, Option.bind_some]
  have hcleared : (s.clearPointer nodeId).node nodeId = some node.clearCurrentTask := by
    rw [Store.clearPointer_node, Function.update_self, hn, Option.map_some]
  -- the queues are read once the pointer is empty
  have hqueues : (∀ tid task, node.currentTask = some tid → s.task tid = some task →
      task.status.live = false) →
      wp (claimFromQueues nodeId node claimToken downloadToken)
        (WorkConserving s nodeId node claimToken downloadToken) (s.clearPointer nodeId) := by
    intro hdone
    obtain ⟨hcapable, hcoh', hb'⟩ := h.clearPointer hcoh hb hn hdone
    refine (hcapable.wp_claimFromQueues hcoh' hb' hcleared claimToken downloadToken).mono ?_
    rintro answer s' ⟨hs', hanswer⟩
    have hsame : (s.clearPointer nodeId).oldest (claimQueues nodeId node) =
        s.oldest (claimQueues nodeId node) :=
      Store.oldest_congr (s.clearPointer_queue nodeId) _
    rw [hsame] at hs' hanswer
    refine .of_free ?_ hs' hanswer
    rintro tid task ⟨hp, ht, hlive⟩
    rw [hdone tid task (hpointer ▸ hp) ht] at hlive
    cases hlive
  rw [wp_bind, Server.wp_read]
  simp only [hn]
  cases hc : node.currentTask with
  | none =>
    have hsame : s.clearPointer nodeId = s := by
      have hclear : node.clearCurrentTask = node := by
        cases node
        cases hc
        rfl
      rw [Store.clearPointer, hn, Option.map_some, hclear, ← hn, Function.update_eq_self]
    rw [hsame] at hqueues
    exact hqueues fun tid _ hc' ↦ (by rw [hc] at hc'; cases hc')
  | some tid =>
    simp only [wp_bind, Server.wp_read]
    cases ht : s.task tid with
    | none =>
      simp only [wp_bind, Server.wp_write]
      refine hqueues fun tid' task hc' ht' ↦ ?_
      obtain rfl := Option.some.inj (hc.symm.trans hc')
      rw [ht] at ht'
      cases ht'
    | some task =>
      by_cases hlive : task.status.live = true
      · simp only [hlive, if_true, wp_pure]
        exact .of_holds ⟨hpointer.trans hc, ht, hlive⟩
      · simp only [hlive, Bool.false_eq_true, if_false, wp_bind, Server.wp_write]
        refine hqueues fun tid' task' hc' ht' ↦ ?_
        obtain rfl := Option.some.inj (hc.symm.trans hc')
        obtain rfl := Option.some.inj (ht.symm.trans ht')
        simpa using hlive

end Answer

/-- A claim of a registered node answers, after its stale pass, with the task it holds, or else
takes the oldest entry of the queues it reads. -/
theorem claim_takes_oldest [Sha256] {tr : List Entry} {s : Store} (h : Run tr s)
    (hkeep : ∀ e ∈ tr, ∀ tid, e.action ≠ .expireTask tid) (hplans : PlansOffered tr)
    {nodeId : NodeId} {node : Node} (hn : s.node nodeId = some node)
    (claimToken downloadToken : Token) :
    wp (claimTaskForNode nodeId claimToken downloadToken) (fun answer s' ↦
      ∃ s₁, Runs requeueStaleTasks s () s₁ ∧
        WorkConserving s₁ nodeId node claimToken downloadToken answer s') s := by
  obtain ⟨⟨⟩, s₁, hstale, hv⟩ := wp_requeueStaleTasks s
  have hkept : Capable s₁ ∧ Coherent s₁ ∧ Backed s₁ := by
    refine hv.invariant (I := fun s ↦ Capable s ∧ Coherent s ∧ Backed s) ?_
      ⟨(h.capable hplans).1, h.coherent, h.backed hkeep⟩
    rintro s₂ l s₃ hl hm ⟨hcapable, hcoh, hb⟩
    have hl' : l.plans s₂ ∧ l.keepsTasks := by
      cases l with
      | clearPointer | reclaim => exact ⟨trivial, trivial⟩
      | _ => exact hl.elim
    exact ⟨hcapable.move hm hl'.1, hcoh.move hm, hb.move hm hl'.2⟩
  obtain ⟨hcapable, hcoh, hb⟩ := hkept
  -- the node is still registered, with what it has declared
  obtain ⟨node₁, hn₁, hwasm, hcloudpickle⟩ : ∃ node₁, s₁.node nodeId = some node₁ ∧
      node₁.supportsWasm = node.supportsWasm ∧
      node₁.supportsCloudpickle = node.supportsCloudpickle := by
    refine hv.invariant (I := fun s ↦ ∃ node₁, s.node nodeId = some node₁ ∧
      node₁.supportsWasm = node.supportsWasm ∧
      node₁.supportsCloudpickle = node.supportsCloudpickle) ?_ ⟨node, hn, rfl, rfl⟩
    rintro s₂ l s₃ - hm ⟨node₂, hn₂, hwasm, hcloudpickle⟩
    obtain ⟨node₃, hn₃, hwasm', hcloudpickle'⟩ := hm.declared hn₂
    exact ⟨node₃, hn₃, hwasm'.trans hwasm, hcloudpickle'.trans hcloudpickle⟩
  rw [claimTaskForNode, wp_bind]
  refine ⟨(), s₁, hstale, ?_⟩
  refine (hcapable.wp_claim hcoh hb hn₁ claimToken downloadToken).mono fun answer s' hanswer ↦ ?_
  refine ⟨s₁, hstale, ?_⟩
  have hqueues : claimQueues nodeId node₁ = claimQueues nodeId node :=
    claimQueues_congr hwasm hcloudpickle
  exact ⟨hanswer.resumes, hqueues ▸ hanswer.takes, hqueues ▸ hanswer.none_iff, hanswer.idle⟩

namespace Sample

/-- `nodeA` alone is listed for wasm tasks. -/
def listsNodeA (e : Entry) : Bool :=
  match e.action with
  | .availableNodes runtime => runtime = some .wasm ∧ e.response = .nodeIds [nodeA]
  | _ => false

def createsTask (e : Entry) : Bool :=
  match e.action with
  | .createTask _ => true
  | _ => false

end Sample

open Sample in
/-- A node is listed, a task is created for it, and it claims. -/
theorem claim_takes_oldest_offered :
    let tr := performed 200 server [.tick second, join nodeA keyA none,
      .availableNodes (some .wasm), create task1 (some nodeA)]
    (lastStore server tr).queue (.node nodeA) = [task1] ∧
      wp (claimTaskForNode nodeA claim1 download1) (fun answer s' ↦
        ∃ s₁ node, Runs requeueStaleTasks (lastStore server tr) () s₁ ∧
          WorkConserving s₁ nodeA node claim1 download1 answer s') (lastStore server tr) := by
  intro tr
  have hrun : Run tr (lastStore server tr) := run_performed (by decide +kernel) (by decide +kernel)
  have hstate : (lastStore server tr).queue (.node nodeA) = [task1] ∧
      ((lastStore server tr).node nodeA).isSome = true := by decide +kernel
  obtain ⟨hqueue, hnode⟩ := hstate
  obtain ⟨node, hn⟩ := Option.isSome_iff_exists.mp hnode
  have hkeep : ∀ e ∈ tr, ∀ tid, e.action ≠ .expireTask tid := by
    intro e he tid h
    have ha := performed_actions he
    rw [h] at ha
    simp [join, create] at ha
  have hoffer : ∃ e ∈ tr.take 3, e.offers nodeA .wasm := by
    have hlisted : (tr.take 3).any listsNodeA = true := by decide +kernel
    obtain ⟨e, he, hlists⟩ := List.any_eq_true.mp hlisted
    unfold listsNodeA at hlists
    split at hlists
    · rename_i runtime ha
      obtain ⟨rfl, hresponse⟩ := of_decide_eq_true hlists
      exact ⟨e, he, _, _, ha, hresponse, List.mem_singleton.mpr rfl, .inl rfl⟩
    · cases hlists
  have hplans : PlansOffered tr := by
    rintro tr₁ e tr₂ htr a n ha hassigned
    have hin := performed_actions (htr ▸ List.mem_append_right tr₁ List.mem_cons_self : e ∈ tr)
    obtain rfl : a = planned task1 (some nodeA) := by
      rw [ha] at hin
      simpa [join, create] using hin
    obtain rfl : nodeA = n := Option.some.inj hassigned
    -- the task is created by the last of the four steps
    have hcreates : tr.map createsTask = [false, false, false, true] := by decide +kernel
    have hlast : tr₁.length = 3 := by
      have hget := congrArg (fun l ↦ l[tr₁.length]?) hcreates
      simp only [htr, List.map_append, List.map_cons, createsTask, ha] at hget
      rw [List.getElem?_append_right (by simp), List.length_map, Nat.sub_self,
        List.getElem?_cons_zero] at hget
      rcases hlength : tr₁.length with _ | _ | _ | _ | k
      all_goals simp [hlength] at hget ⊢
    have hbefore : tr.take 3 = tr₁ := by rw [htr, ← hlast, List.take_left]
    rw [hbefore] at hoffer
    exact hoffer
  refine ⟨hqueue, (claim_takes_oldest hrun hkeep hplans hn claim1 download1).mono ?_⟩
  rintro answer s' ⟨s₁, hstale, hanswer⟩
  exact ⟨s₁, node, hstale, hanswer⟩

end TandemAio
