import TandemAio.Replicas
import TandemAio.Web

/-!
# Removing a deployment while others use it

`remove_deployment` and the functions of `serve_queue.py` that run beside it, command by command.
Each call is a program counter with its locals; the commands of all calls are interleaved in any
order.
-/

open Reasoning

namespace TandemAio

/-- The hash `serve:deploy:<pid>`, with whatever fields it has. -/
structure DeployHash where
  startCommand : Option (List String)
  replicas : Option Nat
  status : Option ServeStatus
deriving DecidableEq

/-- `meta.get("status", "running") == "running"` -/
def DeployHash.running (h : DeployHash) : Bool := h.status.getD .running = .running

/-- `HSET` of the status; a hash that is missing gets no other field. -/
def DeployHash.setFailed (h : Option DeployHash) : DeployHash :=
  { h.getD ⟨none, none, none⟩ with status := some .failed }

structure ServeStore where
  /-- The set `serve:deployments`. -/
  allDeployments : List Pid
  deploy : Pid → Option DeployHash
  /-- The list `node:<id>:serve`. -/
  serveQueue : NodeId → List Pid
  /-- The sorted set `serve:<pid>:nodes`. -/
  servingNodes : Pid → Scored NodeId Time
  /-- The list `serve:<pid>:pending`. -/
  pending : Pid → List RequestId
  /-- The hash `serve:req:<id>`, by the deployment it names. -/
  request : RequestId → Option String

namespace ServeStore

@[simps] def setDeploy (s : ServeStore) (pid : Pid) (h : Option DeployHash) : ServeStore :=
  { s with deploy := Function.update s.deploy pid h }

@[simps] def setServing (s : ServeStore) (pid : Pid) (nodes : Scored NodeId Time) : ServeStore :=
  { s with servingNodes := Function.update s.servingNodes pid nodes }

@[simps] def setQueue (s : ServeStore) (nodeId : NodeId) (pids : List Pid) : ServeStore :=
  { s with serveQueue := Function.update s.serveQueue nodeId pids }

@[simps] def setPending (s : ServeStore) (pid : Pid) (ids : List RequestId) : ServeStore :=
  { s with pending := Function.update s.pending pid ids }

@[simps] def setRequest (s : ServeStore) (id : RequestId) (pid : Option String) : ServeStore :=
  { s with request := Function.update s.request id pid }

@[simps] def dropMember (s : ServeStore) (pid : Pid) : ServeStore :=
  { s with allDeployments := s.allDeployments.filter (· ≠ pid) }

/-- `bool(meta)`, and the status. -/
def active (s : ServeStore) (pid : Pid) : Bool := ((s.deploy pid).map DeployHash.running).getD false

/-- The keys as a store has them when none of these calls is in flight. -/
def ofWeb (s : WebStore) : ServeStore where
  allDeployments := s.host.allDeployments
  deploy := fun pid ↦ (s.host.deploy pid).map fun d ↦
    ⟨some d.startCommand, some d.replicas, some d.status⟩
  serveQueue := s.host.serveQueue
  servingNodes := s.host.servingNodes
  pending := fun pid ↦ ((s.pending pid).live [] s.now).value
  request := fun id ↦ ((s.request id).live none s.now).value.map (·.pid)

end ServeStore

/-! ## Calls -/

/-- `remove_deployment`, by its next command. -/
inductive RemovePc
  | srem
  | deleteHash
  | deleteNodes
  | deletePending
  | done
deriving DecidableEq

/-- `mark_failed` -/
inductive FailPc
  | check
  | write
  | done
deriving DecidableEq

/-- `nodes_next` -/
inductive NextPc
  /-- `deployment_active` of the next pid. -/
  | check
  /-- `mark_serving` of a pid that was active. -/
  | heartbeat (pid : Pid)
  | pop
  | read (id : RequestId)
  | done (request : Option RequestId)
deriving DecidableEq

/-- `reap_stale_serve_nodes`, with the deployments that are left; `assign_nodes` from `readMeta`
on. -/
inductive ReapPc
  | members
  | dropStale (pid : Pid) (rest : List Pid)
  | list (pid : Pid) (rest : List Pid)
  | dropUnhealthy (pid : Pid) (rest : List Pid) (nodeIds : List NodeId)
  | readMeta (pid : Pid) (rest : List Pid)
  | already (pid : Pid) (rest : List Pid) (replicas : Nat)
  | push (pid : Pid) (rest : List Pid) (replicas : Nat) (already nodeIds : List NodeId)
  | done
deriving DecidableEq

/-- What `claim_assignment` comes to. -/
inductive ClaimAnswer
  | nothing
  | handed (pid : Pid) (startCommand : List String)
  /-- `meta["start_command"]` raises. -/
  | keyError
deriving DecidableEq

inductive ClaimPc
  | pop
  | read (pid : Pid)
  | answered (answer : ClaimAnswer)
deriving DecidableEq

/-- `load_balance`, up to its wait for a response. -/
inductive BalancePc
  | nodes
  | store
  | push
  | waiting
  | unavailable
deriving DecidableEq

inductive ServeCall
  | remove (pid : Pid) (pc : RemovePc)
  | fail (pid : Pid) (pc : FailPc)
  | next (nodeId : NodeId) (todo active stop : List Pid) (pc : NextPc)
  | reap (pc : ReapPc)
  | claim (nodeId : NodeId) (pc : ClaimPc)
  | balance (pid : Pid) (id : RequestId) (pc : BalancePc)
deriving DecidableEq

/-- What the clock and the keys of the task queue answer to a command; none of them is written
here. -/
structure Outside where
  now : Time
  /-- `get_healthy_node_ids` -/
  healthyNodeIds : List NodeId
  /-- `is_node_healthy` of a node that has a hash. -/
  healthy : NodeId → Bool

/-- The calls as they begin.  `assign_nodes` also runs alone. -/
inductive ServeCall.Begins : ServeCall → Prop
  | remove (pid : Pid) : Begins (.remove pid .srem)
  | fail (pid : Pid) : Begins (.fail pid .check)
  | next (nodeId : NodeId) (pids : List Pid) : Begins (.next nodeId pids [] [] .check)
  | reap : Begins (.reap .members)
  | assign (pid : Pid) : Begins (.reap (.readMeta pid []))
  | claim (nodeId : NodeId) : Begins (.claim nodeId .pop)
  | balance (pid : Pid) (id : RequestId) : Begins (.balance pid id .nodes)

/-! ## Commands -/

namespace ServeStore

def removeStep (s : ServeStore) (pid : Pid) : RemovePc → RemovePc × ServeStore
  | .srem => (.deleteHash, s.dropMember pid)
  | .deleteHash => (.deleteNodes, s.setDeploy pid none)
  | .deleteNodes => (.deletePending, s.setServing pid .empty)
  | .deletePending => (.done, s.setPending pid [])
  | .done => (.done, s)

def failStep (s : ServeStore) (pid : Pid) : FailPc → FailPc × ServeStore
  | .check => if (s.deploy pid).isSome then (.write, s) else (.done, s)
  | .write => (.done, s.setDeploy pid (some (DeployHash.setFailed (s.deploy pid))))
  | .done => (.done, s)

/-- `nodes_next`.  The `BLPOP` takes from the first list that has a request, or times out. -/
def nextStep (s : ServeStore) (o : Outside) (nodeId : NodeId) (todo active stop : List Pid) :
    NextPc → ServeCall × ServeStore
  | .check =>
    match todo with
    | [] => (.next nodeId [] active stop (if active = [] then .done none else .pop), s)
    | pid :: rest =>
      if s.active pid then (.next nodeId rest (active ++ [pid]) stop (.heartbeat pid), s)
      else (.next nodeId rest active (stop ++ [pid]) .check, s)
  | .heartbeat pid =>
    (.next nodeId todo active stop .check,
      s.setServing pid ((s.servingNodes pid).add nodeId o.now))
  | .pop =>
    match active.find? fun pid ↦ s.pending pid ≠ [] with
    | none => (.next nodeId todo active stop (.done none), s)
    | some pid =>
      match s.pending pid with
      | [] => (.next nodeId todo active stop (.done none), s)
      | id :: ids => (.next nodeId todo active stop (.read id), s.setPending pid ids)
  | .read id =>
    (.next nodeId todo active stop (.done (if (s.request id).isSome then some id else none)), s)
  | .done request => (.next nodeId todo active stop (.done request), s)

/-- The next deployment of a pass. -/
def reapRest : List Pid → ReapPc
  | [] => .done
  | pid :: rest => .dropStale pid rest

def reapStep (s : ServeStore) (o : Outside) : ReapPc → ReapPc × ServeStore
  | .members => (reapRest s.allDeployments, s)
  | .dropStale pid rest =>
    (.list pid rest, s.setServing pid
      ((s.servingNodes pid).keep fun e ↦ o.now - serveNodeStaleSeconds < e.2))
  | .list pid rest => (.dropUnhealthy pid rest (s.servingNodes pid).members, s)
  | .dropUnhealthy pid rest [] => (.readMeta pid rest, s)
  | .dropUnhealthy pid rest (nodeId :: nodeIds) =>
    (.dropUnhealthy pid rest nodeIds,
      if o.healthy nodeId then s
      else s.setServing pid ((s.servingNodes pid).keep fun e ↦ e.1 ≠ nodeId))
  | .readMeta pid rest =>
    match s.deploy pid with
    | none => (reapRest rest, s)
    | some h => if h.running then (.already pid rest (h.replicas.getD 1), s) else (reapRest rest, s)
  | .already pid rest replicas =>
    (.push pid rest replicas (s.servingNodes pid).members o.healthyNodeIds, s)
  | .push _ rest _ _ [] => (reapRest rest, s)
  | .push pid rest replicas already (nodeId :: nodeIds) =>
    if replicas ≤ already.length then (reapRest rest, s)
    else if nodeId ∈ already then (.push pid rest replicas already nodeIds, s)
    else (.push pid rest replicas (nodeId :: already) nodeIds,
      s.setQueue nodeId (s.serveQueue nodeId ++ [pid]))
  | .done => (.done, s)

def claimStep (s : ServeStore) (nodeId : NodeId) : ClaimPc → ClaimPc × ServeStore
  | .pop =>
    match s.serveQueue nodeId with
    | [] => (.answered .nothing, s)
    | pid :: pids => (.read pid, s.setQueue nodeId pids)
  | .read pid =>
    match s.deploy pid with
    | none => (.answered .nothing, s)
    | some h =>
      match h.startCommand with
      | none => (.answered .keyError, s)
      | some startCommand => (.answered (.handed pid startCommand), s)
  | .answered answer => (.answered answer, s)

def balanceStep (s : ServeStore) (o : Outside) (pid : Pid) (id : RequestId) :
    BalancePc → BalancePc × ServeStore
  | .nodes =>
    let serving := (s.servingNodes pid).entries.filter fun e ↦
      o.now - serveNodeStaleSeconds ≤ e.2 ∧ o.healthy e.1
    (if serving = [] then .unavailable else .store, s)
  | .store => (.push, s.setRequest id (some pid.text))
  | .push => (.waiting, s.setPending pid (s.pending pid ++ [id]))
  | .waiting => (.waiting, s)
  | .unavailable => (.unavailable, s)

/-- The next command of a call. -/
def step (s : ServeStore) (o : Outside) : ServeCall → ServeCall × ServeStore
  | .remove pid pc => ((.remove pid (s.removeStep pid pc).1), (s.removeStep pid pc).2)
  | .fail pid pc => (.fail pid (s.failStep pid pc).1, (s.failStep pid pc).2)
  | .next nodeId todo active stop pc => s.nextStep o nodeId todo active stop pc
  | .reap pc => (.reap (s.reapStep o pc).1, (s.reapStep o pc).2)
  | .claim nodeId pc => (.claim nodeId (s.claimStep nodeId pc).1, (s.claimStep nodeId pc).2)
  | .balance pid id pc =>
    (.balance pid id (s.balanceStep o pid id pc).1, (s.balanceStep o pid id pc).2)

end ServeStore

/-! ## Runs -/

/-- The store and all calls that have begun. -/
structure ServeSystem where
  store : ServeStore
  calls : List ServeCall

namespace ServeSystem

def initial (web : WebStore) : ServeSystem := ⟨.ofWeb web, []⟩

/-- The next command of the `i`-th call. -/
def advance (s : ServeSystem) (i : Nat) (call : ServeCall) (o : Outside) : ServeSystem :=
  ⟨(s.store.step o call).2, s.calls.set i (s.store.step o call).1⟩

end ServeSystem

/-- A call begins, or one of them, which is the label, runs its next command. -/
inductive ServeMove : ServeSystem → Option ServeCall → ServeSystem → Prop
  | start {s : ServeSystem} {call : ServeCall} : call.Begins →
      ServeMove s none ⟨s.store, s.calls ++ [call]⟩
  | command {s : ServeSystem} {i : Nat} {call : ServeCall} (o : Outside) :
      s.calls[i]? = some call → ServeMove s (some call) (s.advance i call o)

/-- The systems that are reached from `s₀` by steps that meet a condition. -/
inductive ServeRun (ok : ServeSystem → Option ServeCall → Prop) (s₀ : ServeSystem) :
    ServeSystem → Prop
  | start : ServeRun ok s₀ s₀
  | step {s s' : ServeSystem} {who : Option ServeCall} : ServeRun ok s₀ s → ok s who →
      ServeMove s who s' → ServeRun ok s₀ s'

/-- No removal deletes a key while another call has checked the deployment and is about to write
that key. -/
def Unhurried (s : ServeSystem) : Option ServeCall → Prop
  | some (.remove pid .deleteHash) => .fail pid .write ∉ s.calls
  | some (.remove pid .deleteNodes) =>
    ∀ nodeId todo active stop, .next nodeId todo active stop (.heartbeat pid) ∉ s.calls
  | _ => True

/-! ## What one command does -/

namespace ServeStore

variable {s : ServeStore} {o : Outside} {call : ServeCall} {q : Pid}

theorem nextStep_deploy {nodeId : NodeId} {todo active stop : List Pid} {pc : NextPc} :
    (s.nextStep o nodeId todo active stop pc).2.deploy = s.deploy := by
  fun_cases nextStep <;> rfl

theorem reapStep_deploy {pc : ReapPc} : (s.reapStep o pc).2.deploy = s.deploy := by
  fun_cases reapStep <;> first | rfl | (split <;> rfl)

theorem claimStep_deploy {nodeId : NodeId} {pc : ClaimPc} :
    (s.claimStep nodeId pc).2.deploy = s.deploy := by
  fun_cases claimStep <;> rfl

theorem balanceStep_deploy {pid : Pid} {id : RequestId} {pc : BalancePc} :
    (s.balanceStep o pid id pc).2.deploy = s.deploy := by
  fun_cases balanceStep <;> rfl

/-- Only the `DEL` of a removal and the `HSET` of a failure report change a hash. -/
theorem step_deploy (s : ServeStore) (o : Outside) (call : ServeCall) (q : Pid) :
    (s.step o call).2.deploy q = s.deploy q ∨
      call = .remove q .deleteHash ∧ (s.step o call).2.deploy q = none ∨
      call = .fail q .write ∧
        (s.step o call).2.deploy q = some (DeployHash.setFailed (s.deploy q)) := by
  cases call with
  | remove pid pc =>
    cases pc with
    | deleteHash =>
      by_cases hq : q = pid
      · subst hq
        exact Or.inr (Or.inl ⟨rfl, Function.update_self _ _ _⟩)
      · exact Or.inl (Function.update_of_ne hq _ _)
    | srem | deleteNodes | deletePending | done => exact Or.inl rfl
  | fail pid pc =>
    cases pc with
    | check =>
      left
      change (s.failStep pid .check).2.deploy q = s.deploy q
      unfold failStep
      dsimp only
      split <;> rfl
    | write =>
      by_cases hq : q = pid
      · subst hq
        exact Or.inr (Or.inr ⟨rfl, Function.update_self _ _ _⟩)
      · exact Or.inl (Function.update_of_ne hq _ _)
    | done => exact Or.inl rfl
  | next nodeId todo active stop pc => exact Or.inl (congrFun nextStep_deploy q)
  | reap pc => exact Or.inl (congrFun reapStep_deploy q)
  | claim nodeId pc => exact Or.inl (congrFun claimStep_deploy q)
  | balance pid id pc => exact Or.inl (congrFun balanceStep_deploy q)

/-- A poll stays a poll, and gives a heartbeat only for a deployment it has found active. -/
theorem nextStep_call (s : ServeStore) (o : Outside) (nodeId : NodeId)
    (todo active stop : List Pid) (pc : NextPc) :
    ∃ todo' active' stop' pc', (s.nextStep o nodeId todo active stop pc).1 =
        .next nodeId todo' active' stop' pc' ∧ ∀ q, pc' = .heartbeat q → s.active q = true := by
  fun_cases nextStep
  case case1 =>
    refine ⟨_, _, _, _, rfl, fun q hq ↦ ?_⟩
    split at hq <;> cases hq
  case case2 pid rest hactive =>
    refine ⟨_, _, _, _, rfl, fun q hq ↦ ?_⟩
    cases hq
    exact hactive
  all_goals exact ⟨_, _, _, _, rfl, fun q hq ↦ by cases hq⟩

theorem mem_keep_members {z : Scored NodeId Time} {p : NodeId × Time → Bool} {n : NodeId}
    (h : n ∈ (z.keep p).members) : n ∈ z.members := by
  obtain ⟨x, hx, -⟩ := Scored.mem_members_keep.mp h
  exact Scored.mem_members.mpr ⟨x, hx⟩

/-- A sweep records no node. -/
theorem reapStep_serving {pc : ReapPc} {n : NodeId}
    (h : n ∈ ((s.reapStep o pc).2.servingNodes q).members) : n ∈ (s.servingNodes q).members := by
  have hset : ∀ (pid : Pid) (p : NodeId × Time → Bool),
      n ∈ ((s.setServing pid ((s.servingNodes pid).keep p)).servingNodes q).members →
        n ∈ (s.servingNodes q).members := by
    intro pid p hn
    rw [setServing_servingNodes] at hn
    by_cases hq : q = pid
    · subst hq
      rw [Function.update_self] at hn
      exact mem_keep_members hn
    · rwa [Function.update_of_ne hq] at hn
  revert h
  fun_cases reapStep
  case case2 pid rest => exact hset pid _
  case case5 pid rest nodeId nodeIds =>
    dsimp only
    split
    · exact id
    · exact hset pid _
  all_goals exact id

theorem nextStep_serving (s : ServeStore) (o : Outside) (nodeId : NodeId)
    (todo active stop : List Pid) (pc : NextPc) :
    (s.nextStep o nodeId todo active stop pc).2.servingNodes = s.servingNodes ∨
      ∃ pid, pc = .heartbeat pid ∧ (s.nextStep o nodeId todo active stop pc).2.servingNodes =
        Function.update s.servingNodes pid ((s.servingNodes pid).add nodeId o.now) := by
  fun_cases nextStep
  case case4 pid => exact Or.inr ⟨pid, rfl, rfl⟩
  all_goals exact Or.inl rfl

/-- Only the heartbeat of a poll records a node. -/
theorem step_serving (s : ServeStore) (o : Outside) (call : ServeCall) {q : Pid} {n : NodeId}
    (h : n ∈ ((s.step o call).2.servingNodes q).members) :
    n ∈ (s.servingNodes q).members ∨
      ∃ nodeId todo active stop, call = .next nodeId todo active stop (.heartbeat q) := by
  cases call with
  | remove pid pc =>
    left
    cases pc with
    | deleteNodes =>
      change n ∈ (Function.update s.servingNodes pid .empty q).members at h
      by_cases hq : q = pid
      · rw [hq, Function.update_self] at h
        cases h
      · rwa [Function.update_of_ne hq] at h
    | srem | deleteHash | deletePending | done => exact h
  | fail pid pc =>
    left
    change n ∈ ((s.failStep pid pc).2.servingNodes q).members at h
    revert h
    fun_cases failStep <;> exact id
  | next nodeId todo active stop pc =>
    change n ∈ ((s.nextStep o nodeId todo active stop pc).2.servingNodes q).members at h
    rcases nextStep_serving s o nodeId todo active stop pc with hsame | ⟨pid, rfl, hadd⟩
    · rw [hsame] at h
      exact Or.inl h
    · rw [hadd] at h
      by_cases hq : q = pid
      · subst hq
        exact Or.inr ⟨_, _, _, _, rfl⟩
      · rw [Function.update_of_ne hq] at h
        exact Or.inl h
  | reap pc => exact Or.inl (reapStep_serving h)
  | claim nodeId pc =>
    left
    change n ∈ ((s.claimStep nodeId pc).2.servingNodes q).members at h
    revert h
    fun_cases claimStep <;> exact id
  | balance pid req pc =>
    left
    change n ∈ ((s.balanceStep o pid req pc).2.servingNodes q).members at h
    revert h
    fun_cases balanceStep <;> exact id

/-- A failure report writes only after it has found the hash. -/
theorem step_fail (h : (s.step o call).1 = .fail q .write) :
    call = .fail q .check ∧ (s.deploy q).isSome = true := by
  cases call with
  | fail pid pc =>
    cases pc with
    | check =>
      change ServeCall.fail pid (s.failStep pid .check).1 = _ at h
      unfold failStep at h
      dsimp only at h
      split at h
      · rename_i hsome
        cases h
        exact ⟨rfl, hsome⟩
      · cases h
    | write | done => cases h
  | next nodeId todo active stop pc =>
    obtain ⟨_, _, _, _, hcall, -⟩ := nextStep_call s o nodeId todo active stop pc
    exact absurd (hcall.symm.trans h) (by simp)
  | remove | reap | claim | balance => cases h

theorem step_heartbeat {nodeId : NodeId} {todo active stop : List Pid}
    (h : (s.step o call).1 = .next nodeId todo active stop (.heartbeat q)) :
    s.active q = true := by
  cases call with
  | next n todo' active' stop' pc =>
    obtain ⟨_, _, _, _, hcall, hactive⟩ := nextStep_call s o n todo' active' stop' pc
    have hsame := hcall.symm.trans h
    simp only [ServeCall.next.injEq] at hsame
    exact hactive q hsame.2.2.2.2
  | remove | fail | reap | claim | balance => cases h

theorem step_remove {pc : RemovePc} (h : (s.step o call).1 = .remove q pc) :
    ∃ pc', call = .remove q pc' ∧ pc = (s.removeStep q pc').1 := by
  cases call with
  | remove pid pc' =>
    cases h
    exact ⟨pc', rfl, rfl⟩
  | next nodeId todo active stop pc' =>
    obtain ⟨_, _, _, _, hcall, -⟩ := nextStep_call s o nodeId todo active stop pc'
    exact absurd (hcall.symm.trans h) (by simp)
  | fail | reap | claim | balance => cases h

theorem step_claim {nodeId : NodeId} {pc : ClaimPc} (h : (s.step o call).1 = .claim nodeId pc) :
    ∃ pc', call = .claim nodeId pc' ∧ pc = (s.claimStep nodeId pc').1 := by
  cases call with
  | claim n pc' =>
    cases h
    exact ⟨pc', rfl, rfl⟩
  | next n todo active stop pc' =>
    obtain ⟨_, _, _, _, hcall, -⟩ := nextStep_call s o n todo active stop pc'
    exact absurd (hcall.symm.trans h) (by simp)
  | fail | reap | remove | balance => cases h

/-- A claim comes to its answer in two commands. -/
theorem claimStep_answers (s s' : ServeStore) (nodeId : NodeId) :
    ∃ answer, (s'.claimStep nodeId (s.claimStep nodeId .pop).1).1 = .answered answer := by
  cases hqueue : s.serveQueue nodeId with
  | nil =>
    have hpop : (s.claimStep nodeId .pop).1 = .answered .nothing := by
      unfold claimStep
      dsimp only
      rw [hqueue]
    rw [hpop]
    exact ⟨_, rfl⟩
  | cons pid pids =>
    have hpop : (s.claimStep nodeId .pop).1 = .read pid := by
      unfold claimStep
      dsimp only
      rw [hqueue]
    rw [hpop]
    unfold claimStep
    dsimp only
    split
    · exact ⟨_, rfl⟩
    · split <;> exact ⟨_, rfl⟩

end ServeStore

/-! ## Removals that meet no half-done call -/

namespace ServeSystem

variable {s s' : ServeSystem} {q pid : Pid} {who : Option ServeCall}

/-- No node serves the deployment, and no poll is about to say that one does. -/
def Unserved (s : ServeSystem) (q : Pid) : Prop :=
  (∀ n, n ∉ (s.store.servingNodes q).members) ∧
    ∀ nodeId todo active stop, .next nodeId todo active stop (.heartbeat q) ∉ s.calls

/-- The invariant of unhurried runs. -/
structure Orderly (s : ServeSystem) : Prop where
  complete : ∀ q h, s.store.deploy q = some h → h.startCommand.isSome = true
  writes : ∀ q, .fail q .write ∈ s.calls → (s.store.deploy q).isSome = true
  gone : ∀ q pc, .remove q pc ∈ s.calls → pc ≠ .srem → pc ≠ .deleteHash → s.store.deploy q = none
  unserved : ∀ q pc, .remove q pc ∈ s.calls → pc = .deletePending ∨ pc = .done → s.Unserved q

theorem orderly_initial (web : WebStore) : (initial web).Orderly where
  complete q h hq := by
    obtain ⟨d, -, rfl⟩ := Option.map_eq_some_iff.mp hq
    rfl
  writes q hq := by cases hq
  gone q pc hq := by cases hq
  unserved q pc hq := by cases hq

theorem mem_advance {i : Nat} {call c : ServeCall} {o : Outside}
    (hc : c ∈ (s.advance i call o).calls) : c ∈ s.calls ∨ c = (s.store.step o call).1 :=
  List.mem_or_eq_of_mem_set hc

/-- A hash that is missing stays missing in an orderly system. -/
theorem Orderly.deploy_none {call : ServeCall} {o : Outside} (hs : s.Orderly)
    (hcall : call ∈ s.calls) (hq : s.store.deploy q = none) :
    (s.store.step o call).2.deploy q = none := by
  rcases s.store.step_deploy o call q with hsame | ⟨-, hnone⟩ | ⟨rfl, -⟩
  · rw [hsame, hq]
  · exact hnone
  · have hsome := hs.writes q hcall
    rw [hq] at hsome
    cases hsome

/-- A command keeps a deployment unserved when its hash is missing. -/
theorem Unserved.step {i : Nat} {call : ServeCall} {o : Outside} (hi : s.calls[i]? = some call)
    (hq : s.store.deploy q = none) (h : s.Unserved q) : (s.advance i call o).Unserved q := by
  have hcall : call ∈ s.calls := List.mem_of_getElem? hi
  constructor
  · intro n hn
    rcases s.store.step_serving o call hn with hn | ⟨_, _, _, _, rfl⟩
    · exact h.1 n hn
    · exact h.2 _ _ _ _ hcall
  · intro nodeId todo active stop hmem
    rcases mem_advance hmem with hmem | hnew
    · exact h.2 _ _ _ _ hmem
    · -- a poll that finds it active would need the hash
      have hactive := ServeStore.step_heartbeat hnew.symm
      unfold ServeStore.active at hactive
      rw [hq] at hactive
      cases hactive

theorem Orderly.start {call : ServeCall} (hs : s.Orderly) (hbegins : call.Begins) :
    { s with calls := s.calls ++ [call] }.Orderly := by
  have hmem : ∀ c, c ∈ s.calls ++ [call] → c ∈ s.calls ∨ c = call := by
    intro c hc
    simpa using hc
  refine ⟨hs.complete, fun q hq ↦ ?_, fun q pc hq ↦ ?_, fun q pc hq hpc ↦ ⟨?_, ?_⟩⟩
  · rcases hmem _ hq with hq | rfl
    · exact hs.writes q hq
    · cases hbegins
  · rcases hmem _ hq with hq | rfl
    · exact hs.gone q pc hq
    · cases hbegins
      exact fun hsrem ↦ absurd rfl hsrem
  · rcases hmem _ hq with hq | rfl
    · exact (hs.unserved q pc hq hpc).1
    · cases hbegins
      rcases hpc with hpc | hpc <;> cases hpc
  · intro nodeId todo active stop hnext
    rcases hmem _ hq with hq | rfl
    · rcases hmem _ hnext with hnext | rfl
      · exact (hs.unserved q pc hq hpc).2 _ _ _ _ hnext
      · cases hbegins
    · cases hbegins
      rcases hpc with hpc | hpc <;> cases hpc

theorem Orderly.step (hs : s.Orderly) (hok : Unhurried s who) (h : ServeMove s who s') :
    s'.Orderly := by
  cases h with
  | start hbegins => exact hs.start hbegins
  | @command i call o hi =>
    have hcall : call ∈ s.calls := List.mem_of_getElem? hi
    have hgone : ∀ q pc, .remove q pc ∈ (s.advance i call o).calls → pc ≠ .srem →
        pc ≠ .deleteHash → (s.advance i call o).store.deploy q = none := by
      intro q pc hq hsrem hhash
      rcases mem_advance hq with hq | hnew
      · exact hs.deploy_none hcall (hs.gone q pc hq hsrem hhash)
      · obtain ⟨pc', rfl, hpc⟩ := ServeStore.step_remove hnew.symm
        cases pc' with
        | srem => exact absurd hpc hhash
        | deleteHash => exact Function.update_self _ _ _
        | deleteNodes | deletePending | done =>
          exact hs.deploy_none hcall (hs.gone q _ hcall (by simp) (by simp))
    refine ⟨fun q h hq ↦ ?_, fun q hq ↦ ?_, hgone, fun q pc hq hpc ↦ ?_⟩
    · rcases s.store.step_deploy o call q with hsame | ⟨-, hnone⟩ | ⟨rfl, hfailed⟩
      · exact hs.complete q h (hsame.symm.trans hq)
      · exact absurd (hnone.symm.trans hq) (by simp)
      · -- the hash that is marked failed has its start command
        obtain ⟨h', hh'⟩ := Option.isSome_iff_exists.mp (hs.writes q hcall)
        have hset := hfailed.symm.trans hq
        rw [hh'] at hset
        cases hset
        exact hs.complete q h' hh'
    · have hsome : (s.store.deploy q).isSome = true := by
        rcases mem_advance hq with hq | hnew
        · exact hs.writes q hq
        · exact (ServeStore.step_fail hnew.symm).2
      rcases s.store.step_deploy o call q with hsame | ⟨rfl, -⟩ | ⟨-, hfailed⟩
      · exact (congrArg Option.isSome hsame).trans hsome
      · -- no such report is under way when the hash is deleted
        rcases mem_advance hq with hq | hnew
        · exact absurd hq hok
        · cases hnew
      · exact congrArg Option.isSome hfailed
    · rcases mem_advance hq with hq | hnew
      · have hnone := hs.gone q pc hq (by rintro rfl; simp at hpc) (by rintro rfl; simp at hpc)
        exact (hs.unserved q pc hq hpc).step hi hnone
      · obtain ⟨pc', rfl, hpc'⟩ := ServeStore.step_remove hnew.symm
        cases pc' with
        | srem | deleteHash =>
          rw [hpc'] at hpc
          rcases hpc with hpc | hpc <;> cases hpc
        | deleteNodes =>
          have hnone := hs.gone q _ hcall (by simp) (by simp)
          constructor
          · intro n hn
            change n ∈ (Function.update s.store.servingNodes q .empty q).members at hn
            rw [Function.update_self] at hn
            cases hn
          · intro nodeId todo active stop hmem
            rcases mem_advance hmem with hmem | hnext
            · exact hok _ _ _ _ hmem
            · cases hnext
        | deletePending | done =>
          have hnone := hs.gone q _ hcall (by simp) (by simp)
          exact (hs.unserved q _ hcall (by simp)).step hi hnone

theorem orderly {web : WebStore} (h : ServeRun Unhurried (.initial web) s) : s.Orderly := by
  induction h with
  | start => exact orderly_initial web
  | step _ hok hmove ih => exact ih.step hok hmove

/-! ## After a removal -/

/-- What a claim that begins after the removal comes to. -/
def ClaimsApart (s : ServeSystem) (k : Nat) (pid : Pid) : Prop :=
  ∀ j nodeId answer, k ≤ j → s.calls[j]? = some (.claim nodeId (.answered answer)) →
    answer ≠ .keyError ∧ ∀ startCommand, answer ≠ .handed pid startCommand

theorem ClaimsApart.step {k : Nat} (hs : s.Orderly) (hnone : s.store.deploy pid = none)
    (h : s.ClaimsApart k pid) (hmove : ServeMove s who s') :
    s'.ClaimsApart k pid := by
  intro j nodeId answer hj hclaim
  cases hmove with
  | @start call hbegins =>
    rcases Nat.lt_or_ge j s.calls.length with hlt | hge
    · rw [List.getElem?_append_left hlt] at hclaim
      exact h j nodeId answer hj hclaim
    · have hnew := List.mem_of_getElem? (List.getElem?_append_right hge ▸ hclaim)
      rw [List.mem_singleton] at hnew
      subst hnew
      cases hbegins
  | @command i call o hi =>
    by_cases hij : i = j
    · subst hij
      have hlen : i < s.calls.length := (List.getElem?_eq_some_iff.mp hi).1
      change (s.calls.set i _)[i]? = _ at hclaim
      rw [List.getElem?_set_self hlen] at hclaim
      obtain ⟨pc, rfl, hpc⟩ := ServeStore.step_claim (Option.some.inj hclaim)
      cases pc with
      | answered answer' =>
        cases hpc
        exact h i nodeId answer hj hi
      | pop =>
        unfold ServeStore.claimStep at hpc
        dsimp only at hpc
        split at hpc
        · cases hpc
          exact ⟨by simp, by simp⟩
        · cases hpc
      | read q =>
        unfold ServeStore.claimStep at hpc
        dsimp only at hpc
        split at hpc
        · cases hpc
          exact ⟨by simp, by simp⟩
        · rename_i hash hhash
          split at hpc
          · -- every hash has its start command
            rename_i hcommand
            have hsome := hs.complete q hash hhash
            rw [hcommand] at hsome
            cases hsome
          · cases hpc
            refine ⟨by simp, fun startCommand hsame ↦ ?_⟩
            cases hsame
            rw [hnone] at hhash
            cases hhash
    · change (s.calls.set i _)[j]? = _ at hclaim
      rw [List.getElem?_set_ne hij] at hclaim
      exact h j nodeId answer hj hclaim

theorem length_le_of_move (h : ServeMove s who s') : s.calls.length ≤ s'.calls.length := by
  cases h with
  | start => simp
  | command o hi => exact (List.length_set ..).ge

theorem done_mem_of_move (h : ServeMove s who s') (hdone : .remove q .done ∈ s.calls) :
    .remove q .done ∈ s'.calls := by
  cases h with
  | start => exact List.mem_append_left _ hdone
  | @command i call o hi =>
    obtain ⟨j, hj⟩ := List.getElem?_of_mem hdone
    by_cases hij : i = j
    · subst hij
      rw [hi] at hj
      cases hj
      have hlen : i < s.calls.length := (List.getElem?_eq_some_iff.mp hi).1
      exact List.mem_of_getElem? (List.getElem?_set_self hlen)
    · exact List.mem_of_getElem? ((List.getElem?_set_ne hij).trans hj)

end ServeSystem

/-- In a run whose removals do not overtake a call that is about to write, a removal is final: from
its end on the deployment has no hash and no serving node, and no claim that begins later raises or
hands it out. -/
theorem removal_final {web : WebStore} {s s' : ServeSystem} {pid : Pid}
    (hrun : ServeRun Unhurried (.initial web) s) (hdone : .remove pid .done ∈ s.calls)
    (hlater : ServeRun Unhurried s s') :
    s'.store.deploy pid = none ∧ (s'.store.servingNodes pid).members = [] ∧
      s'.ClaimsApart s.calls.length pid := by
  have hkept : s'.Orderly ∧ .remove pid .done ∈ s'.calls ∧ s.calls.length ≤ s'.calls.length ∧
      s'.ClaimsApart s.calls.length pid := by
    induction hlater with
    | start =>
      refine ⟨ServeSystem.orderly hrun, hdone, le_refl _, fun j nodeId answer hj hclaim ↦ ?_⟩
      -- no claim has begun yet
      have hlt := (List.getElem?_eq_some_iff.mp hclaim).1
      omega
    | step _ hok hmove ih =>
      obtain ⟨horderly, hmem, hlen, hapart⟩ := ih
      have hnone := horderly.gone pid .done hmem (by simp) (by simp)
      exact ⟨horderly.step hok hmove, ServeSystem.done_mem_of_move hmove hmem,
        hlen.trans (ServeSystem.length_le_of_move hmove), hapart.step horderly hnone hmove⟩
  obtain ⟨horderly, hmem, -, hapart⟩ := hkept
  have hserving := (horderly.unserved pid .done hmem (Or.inr rfl)).1
  exact ⟨horderly.gone pid .done hmem (by simp) (by simp),
    List.eq_nil_iff_forall_not_mem.mpr hserving, hapart⟩

/-! ## A removal between a check and its write -/

namespace Sample

/-- A server with the deployment in the queue of its node, and no request. -/
def idle : WebStore := .initial deployed

def noon : Outside := ⟨0, [nodeB], fun _ ↦ true⟩

/-- Calls that begin, and then the commands of calls by their positions. -/
def played (s : ServeSystem) (calls : List ServeCall) (turns : List Nat) : ServeSystem :=
  turns.foldl (fun s i ↦ match s.calls[i]? with
    | some call => s.advance i call noon
    | none => s) ⟨s.store, s.calls ++ calls⟩

theorem played_run {s₀ s : ServeSystem} {calls : List ServeCall} (turns : List Nat)
    (hrun : ServeRun (fun _ _ ↦ True) s₀ s) (hbegins : ∀ call ∈ calls, call.Begins) :
    ServeRun (fun _ _ ↦ True) s₀ (played s calls turns) := by
  have hstart : ServeRun (fun _ _ ↦ True) s₀ ⟨s.store, s.calls ++ calls⟩ := by
    induction calls generalizing s with
    | nil => rwa [List.append_nil]
    | cons call calls ih =>
      have hfirst : ServeRun (fun _ _ ↦ True) s₀ ⟨s.store, s.calls ++ [call]⟩ :=
        hrun.step trivial (.start (hbegins call List.mem_cons_self))
      have hrest := ih hfirst fun c hc ↦ hbegins c (List.mem_cons_of_mem _ hc)
      simpa using hrest
  unfold played
  generalize (⟨s.store, s.calls ++ calls⟩ : ServeSystem) = t at hstart
  induction turns generalizing t with
  | nil => exact hstart
  | cons i turns ih =>
    rw [List.foldl_cons]
    apply ih
    split
    · rename_i call hcall
      exact hstart.step trivial (.command noon hcall)
    · exact hstart

/-- A failure report and a poll have found the deployment when it is removed, and go on after
that. -/
def overtaken : ServeSystem :=
  played (.initial idle) [.fail web .check, .next nodeB [web] [] [] .check, .remove web .srem]
    [0, 1, 2, 2, 2, 2, 0, 1, 1, 1]

/-- After it the node claims. -/
def claimedAfter : ServeSystem := played overtaken [.claim nodeB .pop] [3, 3]

/-- The removal alone, and the claim. -/
def removed : ServeSystem := played (.initial idle) [.remove web .srem] [0, 0, 0, 0]

def claimedRemoved : ServeSystem := played removed [.claim nodeB .pop] [1, 1]

end Sample

open Sample in
/-- Every call has ended, the hash is there again, a node is recorded as serving, and a later claim
raises. -/
theorem removal_overtaken :
    overtaken.calls = [.fail web .done, .next nodeB [] [web] [] (.done none), .remove web .done] ∧
      overtaken.store.deploy web = some ⟨none, none, some .failed⟩ ∧
      (overtaken.store.servingNodes web).members = [nodeB] ∧
      claimedAfter.calls[3]? = some (.claim nodeB (.answered .keyError)) ∧
      ¬∀ s s', ServeRun (fun _ _ ↦ True) (.initial idle) s → .remove web .done ∈ s.calls →
        ServeRun (fun _ _ ↦ True) s s' → s'.store.deploy web = none ∧
          (s'.store.servingNodes web).members = [] ∧ s'.ClaimsApart s.calls.length web := by
  have hfacts : overtaken.calls =
        [.fail web .done, .next nodeB [] [web] [] (.done none), .remove web .done] ∧
      overtaken.store.deploy web = some ⟨none, none, some .failed⟩ ∧
      (overtaken.store.servingNodes web).members = [nodeB] ∧
      claimedAfter.calls[3]? = some (.claim nodeB (.answered .keyError)) := by
    decide +kernel
  refine ⟨hfacts.1, hfacts.2.1, hfacts.2.2.1, hfacts.2.2.2, fun h ↦ ?_⟩
  have hbegins : ∀ call ∈ [ServeCall.fail web .check, .next nodeB [web] [] [] .check,
      .remove web .srem], call.Begins := by
    intro call hcall
    simp only [List.mem_cons, List.not_mem_nil, or_false] at hcall
    rcases hcall with rfl | rfl | rfl
    · exact .fail web
    · exact .next nodeB [web]
    · exact .remove web
  have hrun : ServeRun (fun _ _ ↦ True) (.initial idle) overtaken :=
    played_run [0, 1, 2, 2, 2, 2, 0, 1, 1, 1] .start hbegins
  have hdone : .remove web .done ∈ overtaken.calls := by
    rw [hfacts.1]
    simp
  have hnone := (h overtaken overtaken hrun hdone .start).1
  rw [hfacts.2.1] at hnone
  cases hnone

open Sample in
theorem removal_final_alone :
    claimedRemoved.store.deploy web = none ∧
      (claimedRemoved.store.servingNodes web).members = [] ∧
      claimedRemoved.ClaimsApart 1 web := by
  have hturn : ∀ {s₀ s : ServeSystem} (i : Nat) (call : ServeCall), ServeRun Unhurried s₀ s →
      s.calls[i]? = some call → Unhurried s (some call) →
        ServeRun Unhurried s₀ (s.advance i call noon) :=
    fun _ _ hrun hcall hok ↦ hrun.step hok (.command noon hcall)
  have hbegin : ∀ (s : ServeSystem) (call : ServeCall), call.Begins →
      ServeRun Unhurried s ⟨s.store, s.calls ++ [call]⟩ := by
    intro s call hbegins
    have hidle : Unhurried s none := trivial
    exact ServeRun.step .start hidle (.start hbegins)
  have hrun : ServeRun Unhurried (.initial idle) removed := by
    have hstart := hbegin (.initial idle) (.remove web .srem) (.remove web)
    have hsrem := hturn 0 (.remove web .srem) hstart rfl trivial
    have hhash := hturn 0 (.remove web .deleteHash) hsrem rfl
      fun h ↦ by cases List.mem_singleton.mp h
    have hnodes := hturn 0 (.remove web .deleteNodes) hhash rfl
      fun _ _ _ _ h ↦ by cases List.mem_singleton.mp h
    exact hturn 0 (.remove web .deletePending) hnodes rfl trivial
  have hlater : ServeRun Unhurried removed claimedRemoved := by
    have hstart := hbegin removed (.claim nodeB .pop) (.claim nodeB)
    have hpop := hturn 1 (.claim nodeB .pop) hstart rfl trivial
    exact hturn 1 (.claim nodeB (.read web)) hpop rfl trivial
  exact removal_final hrun List.mem_cons_self hlater

end TandemAio
