import TandemAio.Hosting
import TandemAio.Proxy
import TandemAio.Reasoning.Expiring

/-!
# `app/utils/serve_queue.py`: web requests and their responses

A call of `load_balance` puts its request on the list of its deployment and waits for a response
under its request id.  Nodes poll the lists of the deployments they host and post responses.  The
commands of all calls, polls and posts are interleaved in any order.
-/

open Reasoning

namespace TandemAio

def serveRequestTtlSeconds : Time := 120 * second

/-- The payload of `submit_response`. `body_b64` is what it decodes to. -/
structure AppResponse where
  status : Int
  headers : List (String × String)
  bodyB64 : List UInt8
deriving DecidableEq

/-- A posted response, with the position of its post in the log. -/
structure Reply where
  post : Nat
  response : AppResponse
deriving DecidableEq

/-- Where a call of `load_balance` stands: what its last command was. -/
inductive CallPhase
  | begun
  | stored
  | storedTtl
  | pushed
  | enqueued
  /-- Blocked in `BLPOP`. -/
  | waiting
  /-- `BLPOP` has an answer. -/
  | served (reply : Reply)
  | done
deriving DecidableEq

structure Call where
  pid : Pid
  request : StoredRequest
  phase : CallPhase

inductive PollPhase
  | checking
  /-- Blocked in `BLPOP`. -/
  | blocked
  | popped (id : RequestId)
  | done
deriving DecidableEq

/-- A request of a node to `nodes_next`. -/
structure NodePoll where
  nodeId : NodeId
  /-- The pids that are not checked yet. -/
  todo : List Pid
  active : List Pid
  phase : PollPhase

/-- What has happened, in order. -/
inductive WebEvent
  | enqueued (id : RequestId) (pid : Pid)
  | polled (poll : Nat) (nodeId : NodeId) (pids : List Pid)
  | foundActive (poll : Nat) (pid : Pid)
  | handed (poll : Nat) (nodeId : NodeId) (id : RequestId) (request : StoredRequest)
  | posted (id : RequestId) (nodeId : NodeId) (response : AppResponse) (time : Time)
  /-- The `BLPOP` of a call takes a response. -/
  | taken (id : RequestId) (post : Nat) (time : Time)
  | returned (id : RequestId) (post : Nat) (response : AppResponse)
deriving DecidableEq

structure WebStore where
  host : HostStore
  /-- The clock of Redis. -/
  now : Time
  /-- The hash `serve:req:<id>`. -/
  request : RequestId → Expiring (Option StoredRequest)
  /-- The list `serve:<pid>:pending`. -/
  pending : Pid → Expiring (List RequestId)
  /-- The list `serve:resp:<id>`. -/
  response : RequestId → Expiring (List Reply)
  call : RequestId → Option Call
  poll : Nat → Option NodePoll
  /-- Posts whose `EXPIRE` has not run. -/
  ttlDue : List RequestId
  log : List WebEvent

namespace WebStore

def initial (host : HostStore) : WebStore where
  host := host
  now := 0
  request := fun _ ↦ ⟨none, none⟩
  pending := fun _ ↦ ⟨[], none⟩
  response := fun _ ↦ ⟨[], none⟩
  call := fun _ ↦ none
  poll := fun _ ↦ none
  ttlDue := []
  log := []

@[simps] def setCall (s : WebStore) (id : RequestId) (call : Call) : WebStore :=
  { s with call := Function.update s.call id (some call) }

@[simps] def setPoll (s : WebStore) (k : Nat) (poll : NodePoll) : WebStore :=
  { s with poll := Function.update s.poll k (some poll) }

@[simps] def setRequest (s : WebStore) (id : RequestId) (request : Expiring (Option StoredRequest)) :
    WebStore :=
  { s with request := Function.update s.request id request }

@[simps] def setPending (s : WebStore) (pid : Pid) (ids : Expiring (List RequestId)) : WebStore :=
  { s with pending := Function.update s.pending pid ids }

@[simps] def setResponse (s : WebStore) (id : RequestId) (replies : Expiring (List Reply)) :
    WebStore :=
  { s with response := Function.update s.response id replies }

@[simps] def note (s : WebStore) (e : WebEvent) : WebStore := { s with log := s.log ++ [e] }

@[simps] def setHost (s : WebStore) (host : HostStore) : WebStore := { s with host := host }

@[simps] def setDue (s : WebStore) (ids : List RequestId) : WebStore := { s with ttlDue := ids }

@[simps] def setNow (s : WebStore) (now : Time) : WebStore := { s with now := now }

/-! ## `load_balance` -/

/-- A call begins when it has found a node that serves the deployment. -/
def beginCall (s : WebStore) (id : RequestId) (pid : Pid) (request : FlaskRequest) :
    Option WebStore :=
  match s.call id with
  | some _ => none
  | none =>
    if s.host.healthyServingNodeIds pid = [] then none
    else some (s.setCall id ⟨pid, loadBalance pid.text request, .begun⟩)

/-- The next command of `enqueue_request`. -/
def enqueueCommand (s : WebStore) (id : RequestId) : Option WebStore :=
  match s.call id with
  | none => none
  | some call =>
    match call.phase with
    | .begun =>
      some ((s.setRequest id ⟨some call.request, ((s.request id).live none s.now).expireAt⟩).setCall
        id { call with phase := .stored })
    | .stored =>
      let hash := (s.request id).live none s.now
      some ((s.setRequest id ⟨hash.value,
        hash.value.map fun _ ↦ s.now + serveRequestTtlSeconds⟩).setCall id
          { call with phase := .storedTtl })
    | .storedTtl =>
      some (((s.setPending call.pid ((s.pending call.pid).push s.now id)).setCall id
        { call with phase := .pushed }).note (.enqueued id call.pid))
    | .pushed =>
      some ((s.setPending call.pid
        ((s.pending call.pid).expire s.now serveRequestTtlSeconds)).setCall id
          { call with phase := .enqueued })
    | _ => none

/-- The `BLPOP` of `wait_for_response`. -/
def awaitResponse (s : WebStore) (id : RequestId) : Option WebStore :=
  match s.call id with
  | none => none
  | some call =>
    if call.phase ≠ .enqueued then none
    else
      match ((s.response id).live [] s.now).value with
      | [] => some (s.setCall id { call with phase := .waiting })
      | reply :: _ =>
        some (((s.setResponse id ((s.response id).pop s.now)).setCall id
          { call with phase := .served reply }).note (.taken id reply.post s.now))

/-- The wait ends without a response, or its answer is lost on the way. -/
def timeOut (s : WebStore) (id : RequestId) : Option WebStore :=
  match s.call id with
  | none => none
  | some call =>
    match call.phase with
    | .waiting | .served _ => some (s.setCall id { call with phase := .done })
    | _ => none

def returnResponse (s : WebStore) (id : RequestId) : Option WebStore :=
  match s.call id with
  | none => none
  | some call =>
    match call.phase with
    | .served reply => some ((s.setCall id { call with phase := .done }).note
        (.returned id reply.post reply.response))
    | _ => none

/-! ## `nodes_next` -/

def beginPoll (s : WebStore) (k : Nat) (nodeId : NodeId) (pids : List Pid) : Option WebStore :=
  match s.poll k with
  | some _ => none
  | none => some ((s.setPoll k ⟨nodeId, pids, [], .checking⟩).note (.polled k nodeId pids))

/-- The next turn of the loop over the pids that the node lists. -/
def checkPid (s : WebStore) (k : Nat) : Option WebStore :=
  match s.poll k with
  | none => none
  | some poll =>
    match poll.phase, poll.todo with
    | .checking, pid :: rest =>
      if s.host.deploymentActive pid then
        some (((s.setHost (s.host.markServing pid poll.nodeId)).setPoll k
          { poll with todo := rest, active := poll.active ++ [pid] }).note (.foundActive k pid))
      else some (s.setPoll k { poll with todo := rest })
    | _, _ => none

/-- The `BLPOP` of `claim_request`: the first of the lists that has a request. -/
def popPending (s : WebStore) (k : Nat) : Option WebStore :=
  match s.poll k with
  | none => none
  | some poll =>
    if poll.phase = .blocked ∨ poll.phase = .checking ∧ poll.todo = [] ∧ poll.active ≠ [] then
      match poll.active.find? fun pid ↦ ((s.pending pid).live [] s.now).value ≠ [] with
      | none => some (s.setPoll k { poll with phase := .blocked })
      | some pid =>
        match ((s.pending pid).live [] s.now).value with
        | [] => none
        | id :: _ => some ((s.setPending pid ((s.pending pid).pop s.now)).setPoll k
            { poll with phase := .popped id })
    else none

/-- The poll ends without a request, or its answer is lost on the way. -/
def pollTimeOut (s : WebStore) (k : Nat) : Option WebStore :=
  match s.poll k with
  | none => none
  | some poll => some (s.setPoll k { poll with phase := .done })

/-- The `HGETALL` of `claim_request`. -/
def readRequest (s : WebStore) (k : Nat) : Option WebStore :=
  match s.poll k with
  | none => none
  | some poll =>
    match poll.phase with
    | .popped id =>
      match ((s.request id).live none s.now).value with
      | none => some (s.setPoll k { poll with phase := .done })
      | some request =>
        some ((s.setPoll k { poll with phase := .done }).note (.handed k poll.nodeId id request))
    | _ => none

/-! ## `nodes_response` -/

/-- Whether a node was handed a request. -/
def wasHanded (s : WebStore) (nodeId : NodeId) (id : RequestId) : Bool :=
  s.log.any fun
    | .handed _ n i _ => n = nodeId ∧ i = id
    | _ => false

/-- The `RPUSH` of `submit_response`, by a node that was handed the request.  A call that is blocked
on the list gets the response. -/
def post (s : WebStore) (nodeId : NodeId) (id : RequestId) (response : AppResponse) :
    Option WebStore :=
  if s.wasHanded nodeId id = false then none
  else
    let reply : Reply := ⟨s.log.length, response⟩
    let s := (s.setDue (id :: s.ttlDue)).note (.posted id nodeId response s.now)
    match s.call id with
    | none => none
    | some call =>
      if call.phase = .waiting then
        some ((s.setCall id { call with phase := .served reply }).note (.taken id reply.post s.now))
      else some (s.setResponse id ((s.response id).push s.now reply))

/-- The `EXPIRE` of `submit_response`. -/
def expireResponse (s : WebStore) (id : RequestId) : Option WebStore :=
  if id ∈ s.ttlDue then
    some ((s.setResponse id ((s.response id).expire s.now serveRequestTtlSeconds)).setDue
      (s.ttlDue.erase id))
  else none

end WebStore

/-! ## Runs -/

/-- A command of a call, a poll or a post, or the passage of time. -/
inductive WebAction
  | beginCall (id : RequestId) (pid : Pid) (request : FlaskRequest)
  | enqueueCommand (id : RequestId)
  | awaitResponse (id : RequestId)
  | timeOut (id : RequestId)
  | returnResponse (id : RequestId)
  | beginPoll (k : Nat) (nodeId : NodeId) (pids : List Pid)
  | checkPid (k : Nat)
  | popPending (k : Nat)
  | pollTimeOut (k : Nat)
  | readRequest (k : Nat)
  | post (nodeId : NodeId) (id : RequestId) (response : AppResponse)
  | expireResponse (id : RequestId)
  | tick (now : Time)

namespace WebStore

def step (s : WebStore) : WebAction → Option WebStore
  | .beginCall id pid request => s.beginCall id pid request
  | .enqueueCommand id => s.enqueueCommand id
  | .awaitResponse id => s.awaitResponse id
  | .timeOut id => s.timeOut id
  | .returnResponse id => s.returnResponse id
  | .beginPoll k nodeId pids => s.beginPoll k nodeId pids
  | .checkPid k => s.checkPid k
  | .popPending k => s.popPending k
  | .pollTimeOut k => s.pollTimeOut k
  | .readRequest k => s.readRequest k
  | .post nodeId id response => s.post nodeId id response
  | .expireResponse id => s.expireResponse id
  | .tick now => if s.now ≤ now then some (s.setNow now) else none

/-- The state after a list of actions. -/
def steps (s : WebStore) : List WebAction → Option WebStore
  | [] => some s
  | a :: rest => (s.step a).bind fun s' ↦ s'.steps rest

/-- A step of the hosting side. `remove_deployment` also deletes the list of requests. -/
def hosted (s : WebStore) (b : HostAction) (host : HostStore) : WebStore :=
  match b with
  | .remove pid => (s.setHost host).setPending pid ⟨[], none⟩
  | _ => s.setHost host

end WebStore

/-- The states that are reached from a server whose deployments stand as in `host`, by any
interleaving of commands with each other and with steps of the hosting side. -/
inductive WebRun [Sha256] (host : HostStore) : WebStore → Prop
  | start : WebRun host (.initial host)
  | act {s s' : WebStore} {a : WebAction} : WebRun host s → s.step a = some s' → WebRun host s'
  | host {s : WebStore} {b : HostAction} {h : HostStore} : WebRun host s → HostStep b s.host h →
      WebRun host (s.hosted b h)

theorem WebRun.steps [Sha256] {host : HostStore} {s s' : WebStore} {actions : List WebAction}
    (h : WebRun host s) (hsteps : s.steps actions = some s') : WebRun host s' := by
  induction actions generalizing s with
  | nil =>
    cases hsteps
    exact h
  | cons a rest ih =>
    obtain ⟨s₁, hstep, hrest⟩ := Option.bind_eq_some_iff.mp hsteps
    exact ih (h.act hstep) hrest

end TandemAio
