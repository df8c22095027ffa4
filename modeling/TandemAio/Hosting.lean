import TandemAio.Reasoning.Scored
import TandemAio.Effects

/-!
# `app/utils/serve_queue.py`: which nodes host a deployment

Deployments, the nodes they are assigned to, and what the serve loop of a node makes of its
assignments.
-/

open Reasoning Reasoning.Prog

namespace TandemAio

def serveNodeStaleSeconds : Time := 10 * second

inductive ServeStatus
  | running
  | failed
deriving DecidableEq

/-- The hash `serve:deploy:<pid>`. -/
structure ServeDeployment where
  startCommand : List String
  replicas : Nat
  apiKey : ApiKey
  status : ServeStatus
  createdAt : Time

/-- What the serve loop of a node keeps. -/
structure ServeNode where
  /-- Assignments that the server has answered and the loop has not looked at. -/
  answers : List Pid
  starting : List Pid
  apps : List Pid
  givenUp : List Pid

structure HostStore where
  store : Store
  /-- The set `serve:deployments`. -/
  allDeployments : List Pid
  deploy : Pid → Option ServeDeployment
  /-- The list `node:<id>:serve`. -/
  serveQueue : NodeId → List Pid
  /-- The sorted set `serve:<pid>:nodes`. -/
  servingNodes : Pid → Scored NodeId Time
  node : NodeId → ServeNode

namespace HostStore

def initial (store : Store) : HostStore where
  store := store
  allDeployments := []
  deploy := fun _ ↦ none
  serveQueue := fun _ ↦ []
  servingNodes := fun _ ↦ .empty
  node := fun _ ↦ ⟨[], [], [], []⟩

/-! ## What single commands do -/

@[simps] def putDeploy (s : HostStore) (pid : Pid) (deployment : ServeDeployment) : HostStore :=
  { s with deploy := Function.update s.deploy pid (some deployment) }

/-- `SADD serve:deployments` -/
@[simps] def addDeployment (s : HostStore) (pid : Pid) : HostStore :=
  { s with allDeployments := s.allDeployments.insert pid }

/-- `SREM serve:deployments` and the `DEL` of the hash. -/
@[simps] def dropDeployment (s : HostStore) (pid : Pid) : HostStore :=
  { s with
    allDeployments := s.allDeployments.filter (· ≠ pid)
    deploy := Function.update s.deploy pid none }

@[simps] def pushServe (s : HostStore) (nodeId : NodeId) (pid : Pid) : HostStore :=
  { s with serveQueue := Function.update s.serveQueue nodeId (s.serveQueue nodeId ++ [pid]) }

/-- `LPOP`, as far as the list goes. -/
@[simps] def popServe (s : HostStore) (nodeId : NodeId) : HostStore :=
  { s with serveQueue := Function.update s.serveQueue nodeId (s.serveQueue nodeId).tail }

@[simps] def setServing (s : HostStore) (pid : Pid) (nodes : Scored NodeId Time) : HostStore :=
  { s with servingNodes := Function.update s.servingNodes pid nodes }

@[simps] def modifyNode (s : HostStore) (nodeId : NodeId) (f : ServeNode → ServeNode) :
    HostStore :=
  { s with node := Function.update s.node nodeId (f (s.node nodeId)) }

/-! ## The server -/

def currentServingNodeIds (s : HostStore) (pid : Pid) : List NodeId := (s.servingNodes pid).members

/-- The loop of `assign_nodes`. -/
def assignLoop (pid : Pid) (replicas : Nat) : List NodeId → List NodeId → HostStore → HostStore
  | [], _, s => s
  | nodeId :: rest, already, s =>
    if replicas ≤ already.length then s
    else if nodeId ∈ already then assignLoop pid replicas rest already s
    else assignLoop pid replicas rest (nodeId :: already) (s.pushServe nodeId pid)

/-- `assign_nodes` -/
def assignNodes (s : HostStore) (pid : Pid) : HostStore :=
  match s.deploy pid with
  | none => s
  | some deployment =>
    if deployment.status ≠ .running then s
    else
      assignLoop pid deployment.replicas (s.store.healthyNodeIds none none)
        (s.currentServingNodeIds pid) s

/-- `create_serve_deployment`, with the bound that `serve_deploy` puts on the replicas. -/
def createServeDeployment (s : HostStore) (pid : Pid) (startCommand : List String)
    (replicas : Int) (apiKey : ApiKey) : HostStore :=
  let deployment : ServeDeployment :=
    ⟨startCommand, (max 1 replicas).toNat, apiKey, .running, s.store.clock⟩
  ((s.putDeploy pid deployment).addDeployment pid).assignNodes pid

/-- `deployment_active` -/
def deploymentActive (s : HostStore) (pid : Pid) : Bool :=
  match s.deploy pid with
  | none => false
  | some deployment => deployment.status = .running

/-- `mark_failed` -/
def markFailed (s : HostStore) (pid : Pid) : HostStore :=
  match s.deploy pid with
  | none => s
  | some deployment => s.putDeploy pid { deployment with status := .failed }

/-- `remove_deployment` -/
def removeDeployment (s : HostStore) (pid : Pid) : HostStore :=
  (s.dropDeployment pid).setServing pid .empty

/-- `claim_assignment`, whose answer is on its way to the node. -/
def claimAssignment (s : HostStore) (nodeId : NodeId) : HostStore :=
  match (s.serveQueue nodeId).head? with
  | none => s
  | some pid =>
    match s.deploy pid with
    | none => s.popServe nodeId
    | some _ => (s.popServe nodeId).modifyNode nodeId fun node ↦
      { node with answers := node.answers ++ [pid] }

/-- `mark_serving` -/
def markServing (s : HostStore) (pid : Pid) (nodeId : NodeId) : HostStore :=
  s.setServing pid ((s.servingNodes pid).add nodeId s.store.clock)

/-- A node that still counts as serving. -/
def nodeHealthyNow (s : HostStore) (nodeId : NodeId) : Bool :=
  match s.store.node nodeId with
  | none => false
  | some node => isNodeHealthy node s.store.clock

/-- `healthy_serving_node_ids` -/
def healthyServingNodeIds (s : HostStore) (pid : Pid) : List NodeId :=
  ((s.servingNodes pid).entries.filter fun e ↦
    s.store.clock - serveNodeStaleSeconds ≤ e.2 ∧ s.nodeHealthyNow e.1).map Prod.fst

/-- The body of the loop of `reap_stale_serve_nodes`. -/
def reapDeployment (s : HostStore) (pid : Pid) : HostStore :=
  let fresh := (s.servingNodes pid).keep fun e ↦ s.store.clock - serveNodeStaleSeconds < e.2
  let healthy := fresh.keep fun e ↦ s.nodeHealthyNow e.1
  (s.setServing pid healthy).assignNodes pid

/-- `reap_stale_serve_nodes`, with the members of `serve:deployments` in some order. -/
def reapStaleServeNodes (s : HostStore) (members : List Pid) : HostStore :=
  members.foldl reapDeployment s

/-- The loop of `nodes_next` over the pids that a node lists. -/
def nodesNext (s : HostStore) (nodeId : NodeId) : List Pid → HostStore × List Pid
  | [] => (s, [])
  | pid :: pids =>
    if s.deploymentActive pid then (s.markServing pid nodeId).nodesNext nodeId pids
    else
      let (s', stop) := s.nodesNext nodeId pids
      (s', pid :: stop)

/-! ## The node -/

/-- Step 1 of `serve_loop`, for an answer that has an assignment. -/
def takeAnswer (s : HostStore) (nodeId : NodeId) : HostStore :=
  match (s.node nodeId).answers with
  | [] => s
  | pid :: rest =>
    let node := s.node nodeId
    let fresh := pid ∉ node.apps ∧ pid ∉ node.starting ∧ pid ∉ node.givenUp
    s.modifyNode nodeId fun node ↦
      { node with
        answers := rest
        starting := if fresh then node.starting ++ [pid] else node.starting }

/-- `start_with_retries` for an app that comes up. -/
def appStarted (s : HostStore) (nodeId : NodeId) (pid : Pid) : HostStore :=
  s.modifyNode nodeId fun node ↦
    { node with apps := node.apps ++ [pid], starting := node.starting.filter (· ≠ pid) }

/-- `start_with_retries` when every attempt has failed. -/
def appGivenUp (s : HostStore) (nodeId : NodeId) (pid : Pid) : HostStore :=
  s.modifyNode nodeId fun node ↦
    { node with givenUp := node.givenUp ++ [pid], starting := node.starting.filter (· ≠ pid) }

/-- The apps that the node shuts down when the answer of `nodes_next` says so. -/
def appsStopped (s : HostStore) (nodeId : NodeId) (stop : List Pid) : HostStore :=
  s.modifyNode nodeId fun node ↦ { node with apps := node.apps.filter (· ∉ stop) }

end HostStore

/-! ## Runs -/

/-- A step of the server, of the sweeper or of a node. -/
inductive HostAction
  /-- Anything on the side of the task queue: registrations, heartbeats, the passage of time. -/
  | compute (a : Action)
  | deploy (pid : Pid) (startCommand : List String) (replicas : Int) (apiKey : ApiKey)
  | sweep (members : List Pid)
  | remove (pid : Pid)
  | failed (pid : Pid)
  | claim (nodeId : NodeId)
  | receive (nodeId : NodeId)
  | started (nodeId : NodeId) (pid : Pid)
  | givenUp (nodeId : NodeId) (pid : Pid)
  | poll (nodeId : NodeId) (pids : List Pid)

namespace HostStore

/-- A node that has been given the deployment and has not dropped it. -/
def Occupies (s : HostStore) (pid : Pid) (n : NodeId) : Prop :=
  pid ∈ s.serveQueue n ∨ pid ∈ (s.node n).answers ∨ pid ∈ (s.node n).starting ∨
    pid ∈ (s.node n).apps

/-- A pid that is not in use. -/
def Unused (s : HostStore) (pid : Pid) : Prop :=
  s.deploy pid = none ∧ s.currentServingNodeIds pid = [] ∧ ∀ n, ¬s.Occupies pid n

end HostStore

/-- What a step does.  A deployment draws a new pid, and a sweep visits each deployment once. -/
inductive HostStep [Sha256] : HostAction → HostStore → HostStore → Prop
  | compute {s : HostStore} {a : Action} {r : Response} {store : Store} :
      Runs (handle a) s.store r store → HostStep (.compute a) s { s with store := store }
  | deploy {s : HostStore} {pid : Pid} {startCommand : List String} {replicas : Int}
      {apiKey : ApiKey} : s.Unused pid → HostStep (.deploy pid startCommand replicas apiKey) s
        (s.createServeDeployment pid startCommand replicas apiKey)
  | sweep {s : HostStore} {members : List Pid} : members.Nodup →
      (∀ pid, pid ∈ members ↔ pid ∈ s.allDeployments) →
      HostStep (.sweep members) s (s.reapStaleServeNodes members)
  | remove {s : HostStore} {pid : Pid} : HostStep (.remove pid) s (s.removeDeployment pid)
  | failed {s : HostStore} {pid : Pid} : HostStep (.failed pid) s (s.markFailed pid)
  | claim {s : HostStore} {nodeId : NodeId} : HostStep (.claim nodeId) s (s.claimAssignment nodeId)
  | receive {s : HostStore} {nodeId : NodeId} : HostStep (.receive nodeId) s (s.takeAnswer nodeId)
  | started {s : HostStore} {nodeId : NodeId} {pid : Pid} : pid ∈ (s.node nodeId).starting →
      HostStep (.started nodeId pid) s (s.appStarted nodeId pid)
  | givenUp {s : HostStore} {nodeId : NodeId} {pid : Pid} : pid ∈ (s.node nodeId).starting →
      HostStep (.givenUp nodeId pid) s (s.appGivenUp nodeId pid)
  | poll {s : HostStore} {nodeId : NodeId} {pids : List Pid} : pids ⊆ (s.node nodeId).apps →
      HostStep (.poll nodeId pids) s
        ((s.nodesNext nodeId pids).1.appsStopped nodeId (s.nodesNext nodeId pids).2)

/-- The states that are reached from `s₀` by steps that meet a condition. -/
inductive HostRun [Sha256] (ok : HostAction → HostStore → Prop) (s₀ : HostStore) :
    HostStore → Prop
  | start : HostRun ok s₀ s₀
  | step {a : HostAction} {s s' : HostStore} : HostRun ok s₀ s → ok a s → HostStep a s s' →
      HostRun ok s₀ s'

end TandemAio
