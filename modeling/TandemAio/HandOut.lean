import TandemAio.Replies
import TandemAio.ServeLoop

/-!
# The requests that a node is handed

The loop of a node and its start tasks, against the server's answer to each of its requests.
Between any two commands of the answer, other parties change the server as they like.
-/

open Reasoning

namespace TandemAio

/-- What the answer to a node reads: which deployments are active, the ids on the list of each, and
the hash of each id. -/
structure RequestStore where
  deploymentActive : Pid → Bool
  pending : Pid → List RequestId
  request : RequestId → Option StoredRequest

namespace RequestStore

/-- Requests are stored under the list of their own pid. -/
structure OwnPending (owner : RequestId → Pid) (s : RequestStore) : Prop where
  pending : ∀ pid id, id ∈ s.pending pid → owner id = pid
  request : ∀ id r, s.request id = some r → r.pid = (owner id).text

@[simps] def setPending (s : RequestStore) (pid : Pid) (ids : List RequestId) : RequestStore :=
  { s with pending := Function.update s.pending pid ids }

end RequestStore

/-- A request with its id, as it is in the answer. -/
abbrev HandedRequest := RequestId × StoredRequest

/-- How far the server has got with the request of the node for work, and the node with its
answer. -/
inductive Exchange
  | idle
  /-- The loop of `nodes_next` over the pids that were sent. -/
  | checking (sent todo active stop : List Pid)
  | popped (sent active stop : List Pid) (id : RequestId)
  | answered (sent stop : List Pid) (request : Option HandedRequest)
  /-- The node works the answer off. -/
  | taken (sent stop : List Pid) (request : Option HandedRequest)

/-- A server, a node, and the answer between them. -/
structure HandSystem where
  server : RequestStore
  node : ServeNodeState
  exchange : Exchange

/-- What becomes of a request in a step. -/
inductive HandEvent
  | none
  | answered (sent stop : List Pid) (request : HandedRequest)
  /-- `handle_request` has an app for it. -/
  | proxied (request : HandedRequest)
  /-- `handle_request` has none and returns. -/
  | dropped (request : HandedRequest)

/-- `hosting.get(&req.pid)` has an app. -/
def ServeNodeState.Hosts (s : ServeNodeState) (pid : String) : Prop :=
  ∃ p : Pid, p.text = pid ∧ s.apps p ≠ none

/-- The steps of the loop that send a request or take an answer. -/
def LoopPc.exchanges : LoopPc → LoopPc → Bool
  | .listApps, .nextRequest => true
  | .nextRequest, .stop _ => true
  | .stop [], .claim => true
  | _, _ => false

namespace HandSystem

def initial (server : RequestStore) : HandSystem := ⟨server, .initial, .idle⟩

end HandSystem

/-- One step.  A step of the node alone is one of `NodeMove`. -/
inductive HandStep (owner : RequestId → Pid) : HandSystem → HandEvent → HandSystem → Prop
  /-- Whatever the other parties do on the server. -/
  | server {s : HandSystem} (server : RequestStore) : server.OwnPending owner →
      HandStep owner s .none { s with server := server }
  | node {s : HandSystem} {e : NodeEvent} {n : ServeNodeState} : NodeMove s.node e n →
      s.node.loop.exchanges n.loop = false → HandStep owner s .none { s with node := n }
  /-- The keys of `apps`, in some order. -/
  | send {s : HandSystem} (pids : List Pid) : s.node.loop = .listApps → pids.Nodup → pids ≠ [] →
      (∀ pid, pid ∈ pids ↔ s.node.apps pid ≠ none) →
      HandStep owner s .none ⟨s.server, s.node.goTo .nextRequest, .checking pids pids [] []⟩
  | check {s : HandSystem} {sent todo active stop : List Pid} {pid : Pid} :
      s.exchange = .checking sent (pid :: todo) active stop →
      HandStep owner s .none { s with
        exchange := if s.server.deploymentActive pid then .checking sent todo (active ++ [pid]) stop
          else .checking sent todo active (stop ++ [pid]) }
  /-- `BLPOP`, which takes from the first of the lists that has a request. -/
  | pop {s : HandSystem} {sent active stop : List Pid} {pid : Pid} {id : RequestId}
      {rest : List RequestId} : s.exchange = .checking sent [] active stop →
      active.find? (fun pid ↦ s.server.pending pid ≠ []) = some pid →
      s.server.pending pid = id :: rest →
      HandStep owner s .none { s with
        server := s.server.setPending pid rest, exchange := .popped sent active stop id }
  /-- `BLPOP` times out, or there is no list to wait for. -/
  | popNone {s : HandSystem} {sent active stop : List Pid} :
      s.exchange = .checking sent [] active stop →
      HandStep owner s .none { s with exchange := .answered sent stop none }
  /-- `HGETALL` -/
  | readNone {s : HandSystem} {sent active stop : List Pid} {id : RequestId} :
      s.exchange = .popped sent active stop id → s.server.request id = none →
      HandStep owner s .none { s with exchange := .answered sent stop none }
  | read {s : HandSystem} {sent active stop : List Pid} {id : RequestId} {r : StoredRequest} :
      s.exchange = .popped sent active stop id → s.server.request id = some r →
      HandStep owner s (.answered sent stop (id, r))
        { s with exchange := .answered sent stop (some (id, r)) }
  | take {s : HandSystem} {sent stop : List Pid} {request : Option HandedRequest} :
      s.node.loop = .nextRequest → s.exchange = .answered sent stop request →
      HandStep owner s .none ⟨s.server, s.node.goTo (.stop stop), .taken sent stop request⟩
  /-- An error on the way: the loop sleeps and begins again. -/
  | lost {s : HandSystem} : s.node.loop = .nextRequest →
      HandStep owner s .none ⟨s.server, s.node.goTo (.stop []), .taken [] [] none⟩
  | proxied {s : HandSystem} {sent stop : List Pid} {request : HandedRequest} :
      s.node.loop = .stop [] → s.exchange = .taken sent stop (some request) →
      s.node.Hosts request.2.pid →
      HandStep owner s (.proxied request) ⟨s.server, s.node.goTo .claim, .idle⟩
  | dropped {s : HandSystem} {sent stop : List Pid} {request : HandedRequest} :
      s.node.loop = .stop [] → s.exchange = .taken sent stop (some request) →
      ¬s.node.Hosts request.2.pid →
      HandStep owner s (.dropped request) ⟨s.server, s.node.goTo .claim, .idle⟩
  | done {s : HandSystem} {sent stop : List Pid} :
      s.node.loop = .stop [] → s.exchange = .taken sent stop none →
      HandStep owner s .none ⟨s.server, s.node.goTo .claim, .idle⟩

/-- The states that come after `s₀`. -/
inductive HandRun (owner : RequestId → Pid) (s₀ : HandSystem) : HandSystem → Prop
  | start : HandRun owner s₀ s₀
  | step {s s' : HandSystem} {e : HandEvent} : HandRun owner s₀ s → HandStep owner s e s' →
      HandRun owner s₀ s'

/-! ## The server that requests are put on -/

namespace WebStore

/-- What the answer to a node reads of the server. -/
def requestStore (s : WebStore) : RequestStore where
  deploymentActive := s.host.deploymentActive
  pending pid := ((s.pending pid).live [] s.now).value
  request id := ((s.request id).live none s.now).value

/-- Every server that is reached keeps requests under the list of their own pid. -/
theorem ownPending_of_owned {s : WebStore} (h : s.Owned) (other : Pid) :
    s.requestStore.OwnPending fun id ↦ ((s.call id).map Call.pid).getD other where
  pending := by
    intro pid id hid
    have hmem : id ∈ (s.pending pid).value := Expiring.live_sublist.subset hid
    obtain ⟨c, hc, hpid, -⟩ := h.pending pid id hmem
    show ((s.call id).map Call.pid).getD other = pid
    rw [hc]
    exact hpid
  request := by
    intro id r hr
    have hvalue : (s.request id).value = some r := by
      rcases Expiring.live_eq_or none s.now (s.request id) with ⟨hlive, -⟩ | ⟨hlive, -⟩
      · have hr' : ((s.request id).live none s.now).value = some r := hr
        rwa [hlive] at hr'
      · have hr' : ((s.request id).live none s.now).value = some r := hr
        rw [hlive] at hr'
        cases hr'
    obtain ⟨c, hc, hrequest⟩ := h.request id r hvalue
    show r.pid = (((s.call id).map Call.pid).getD other).text
    rw [hc, ← hrequest]
    exact h.call_pid id c hc

end WebStore

/-! ## The loop and the answer -/

section Invariant

variable {owner : RequestId → Pid} {s s' : HandSystem} {e : HandEvent}

/-- The pids that the server has looked at are parted into the active ones and those to stop. -/
structure Parted (sent todo active stop : List Pid) : Prop where
  todo_nodup : todo.Nodup
  todo_sent : todo ⊆ sent
  active_sent : active ⊆ sent
  stop_apart : ∀ pid ∈ stop, pid ∉ active ∧ pid ∉ todo
  active_apart : ∀ pid ∈ active, pid ∉ todo

/-- The request of an answer is for a pid that was sent and is not to be stopped. -/
def Allowed (sent stop : List Pid) (request : Option HandedRequest) : Prop :=
  ∀ id r, request = some (id, r) → ∃ pid ∈ sent, pid ∉ stop ∧ r.pid = pid.text

/-- What the loop has still to stop. -/
def LoopPc.stopping : LoopPc → Option (List Pid)
  | .stop pids => some pids
  | .shutdown _ _ pids => some pids
  | _ => none

/-- The invariant: every pid that was sent is hosted until the loop stops it. -/
def ExchangeOk (owner : RequestId → Pid) (n : ServeNodeState) : Exchange → Prop
  | .idle => n.loop ≠ .nextRequest ∧ n.loop.stopping = none
  | .checking sent todo active stop => n.loop = .nextRequest ∧
      (∀ pid ∈ sent, n.apps pid ≠ none) ∧ Parted sent todo active stop
  | .popped sent active stop id => n.loop = .nextRequest ∧
      (∀ pid ∈ sent, n.apps pid ≠ none) ∧ Parted sent [] active stop ∧ owner id ∈ active
  | .answered sent stop request => n.loop = .nextRequest ∧
      (∀ pid ∈ sent, n.apps pid ≠ none) ∧ Allowed sent stop request
  | .taken sent stop request => (∃ pids, n.loop.stopping = some pids ∧ pids ⊆ stop) ∧
      (∀ pid ∈ sent, pid ∉ stop → n.apps pid ≠ none) ∧ Allowed sent stop request

theorem Parted.start {sent : List Pid} (h : sent.Nodup) : Parted sent sent [] [] where
  todo_nodup := h
  todo_sent := List.Subset.refl sent
  active_sent := List.nil_subset sent
  stop_apart := fun _ hpid ↦ by cases hpid
  active_apart := fun _ hpid ↦ by cases hpid

theorem Parted.check {sent todo active stop : List Pid} {pid : Pid}
    (h : Parted sent (pid :: todo) active stop) (found : Bool) :
    Parted sent todo (if found then active ++ [pid] else active)
      (if found then stop else stop ++ [pid]) := by
  obtain ⟨hpid, hnodup⟩ := List.nodup_cons.mp h.todo_nodup
  have hsent : pid ∈ sent := h.todo_sent List.mem_cons_self
  have htodo : todo ⊆ sent := fun p hp ↦ h.todo_sent (List.mem_cons_of_mem _ hp)
  have hactive : pid ∉ active := fun hmem ↦ h.active_apart pid hmem List.mem_cons_self
  have hstop : pid ∉ stop := fun hmem ↦ (h.stop_apart pid hmem).2 List.mem_cons_self
  have hstopTodo : ∀ p ∈ stop, p ∉ todo :=
    fun p hp hmem ↦ (h.stop_apart p hp).2 (List.mem_cons_of_mem _ hmem)
  have hactiveTodo : ∀ p ∈ active, p ∉ todo :=
    fun p hp hmem ↦ h.active_apart p hp (List.mem_cons_of_mem _ hmem)
  cases found with
  | true =>
    refine ⟨hnodup, htodo, ?_, ?_, ?_⟩
    · intro p hp
      rcases List.mem_append.mp hp with hp | hp
      · exact h.active_sent hp
      · rw [List.mem_singleton.mp hp]
        exact hsent
    · intro p hp
      refine ⟨?_, hstopTodo p hp⟩
      intro hmem
      rcases List.mem_append.mp hmem with hmem | hmem
      · exact (h.stop_apart p hp).1 hmem
      · rw [List.mem_singleton.mp hmem] at hp
        exact hstop hp
    · intro p hp
      rcases List.mem_append.mp hp with hp | hp
      · exact hactiveTodo p hp
      · rw [List.mem_singleton.mp hp]
        exact hpid
  | false =>
    refine ⟨hnodup, htodo, h.active_sent, ?_, hactiveTodo⟩
    intro p hp
    rcases List.mem_append.mp hp with hp | hp
    · exact ⟨(h.stop_apart p hp).1, hstopTodo p hp⟩
    · rw [List.mem_singleton.mp hp]
      exact ⟨hactive, hpid⟩

/-- Only the loop takes an app out of `apps`, when it stops it. -/
theorem NodeMove.apps {n n' : ServeNodeState} {e : NodeEvent} (h : NodeMove n e n') {pid : Pid}
    (hpid : n.apps pid ≠ none) :
    n'.apps pid ≠ none ∨ ∃ pids, n.loop.stopping = some (pid :: pids) := by
  cases h with
  | stopHeld hloop happ =>
    rename_i pid' pids app
    by_cases hsame : pid = pid'
    · right
      rw [hsame, hloop]
      exact ⟨pids, rfl⟩
    · left
      show Function.update n.apps pid' none pid ≠ none
      rwa [Function.update_of_ne hsame]
  | insert htask =>
    rename_i i pid' app
    left
    show Function.update n.apps pid' (some app) pid ≠ none
    by_cases hsame : pid = pid'
    · rw [hsame, Function.update_self]
      exact Option.some_ne_none _
    · rwa [Function.update_of_ne hsame]
  | _ => exact .inl hpid

/-- A step of the node alone leaves the answer it waits for, or works it off. -/
theorem NodeMove.loop {n n' : ServeNodeState} {e : NodeEvent} (h : NodeMove n e n')
    (hquiet : n.loop.exchanges n'.loop = false) :
    (n.loop = .nextRequest ∧ n'.loop = .nextRequest) ∨
      (∃ pids pids', n.loop.stopping = some pids ∧ n'.loop.stopping = some pids' ∧
        pids' ⊆ pids) ∨
      (n.loop ≠ .nextRequest ∧ n.loop.stopping = none ∧
        n'.loop ≠ .nextRequest ∧ n'.loop.stopping = none) := by
  -- a step of a task leaves the loop where it is
  have hsame : n'.loop = n.loop → (n.loop = .nextRequest ∧ n'.loop = .nextRequest) ∨
      (∃ pids pids', n.loop.stopping = some pids ∧ n'.loop.stopping = some pids' ∧
        pids' ⊆ pids) ∨
      (n.loop ≠ .nextRequest ∧ n.loop.stopping = none ∧
        n'.loop ≠ .nextRequest ∧ n'.loop.stopping = none) := by
    intro heq
    rw [heq]
    cases hloop : n.loop with
    | nextRequest => exact .inl ⟨rfl, rfl⟩
    | stop pids => exact .inr (.inl ⟨pids, pids, rfl, rfl, List.Subset.refl _⟩)
    | shutdown pid app pids => exact .inr (.inl ⟨pids, pids, rfl, rfl, List.Subset.refl _⟩)
    | _ => exact .inr (.inr ⟨by simp, rfl, by simp, rfl⟩)
  cases h with
  | claimed pid hloop =>
    right; right
    rw [hloop]
    exact ⟨by simp, rfl, by simp, rfl⟩
  | notClaimed hloop =>
    right; right
    rw [hloop]
    exact ⟨by simp, rfl, by simp, rfl⟩
  | check hloop =>
    right; right
    rw [hloop, ServeNodeState.goTo_loop]
    refine ⟨by simp, rfl, ?_, ?_⟩
    · split <;> simp
    · split <;> rfl
  | insertStarting hloop =>
    right; right
    rw [hloop]
    exact ⟨by simp, rfl, by simp, rfl⟩
  | spawn hloop =>
    right; right
    rw [hloop]
    exact ⟨by simp, rfl, by simp, rfl⟩
  | listEmpty hloop _ =>
    right; right
    rw [hloop]
    exact ⟨by simp, rfl, by simp, rfl⟩
  | list hloop _ =>
    rw [hloop] at hquiet
    cases hquiet
  | answered stop hloop =>
    rw [hloop] at hquiet
    cases hquiet
  | stopHeld hloop happ =>
    rename_i pid pids app
    right; left
    rw [hloop]
    exact ⟨pid :: pids, pids, rfl, rfl, List.subset_cons_self _ _⟩
  | stopUnheld hloop hnone =>
    rename_i pid pids
    right; left
    rw [hloop]
    exact ⟨pid :: pids, pids, rfl, rfl, List.subset_cons_self _ _⟩
  | shutdown hloop =>
    rename_i pid app pids
    right; left
    rw [hloop]
    exact ⟨pids, pids, rfl, rfl, List.Subset.refl _⟩
  | stopped hloop =>
    rw [hloop] at hquiet
    cases hquiet
  | setupOk _ _ => exact hsame rfl
  | setupFailed _ => exact hsame rfl
  | insert _ => exact hsame rfl
  | giveUp _ => exact hsame rfl
  | report _ => exact hsame rfl
  | finish _ => exact hsame rfl

theorem ExchangeOk.node {n n' : ServeNodeState} {e : NodeEvent} {x : Exchange}
    (h : ExchangeOk owner n x) (hmove : NodeMove n e n')
    (hquiet : n.loop.exchanges n'.loop = false) : ExchangeOk owner n' x := by
  have hloop := hmove.loop hquiet
  -- while the loop waits nothing is stopped
  have hwaiting : n.loop = .nextRequest → n'.loop = .nextRequest ∧
      ∀ pid, n.apps pid ≠ none → n'.apps pid ≠ none := by
    intro hwait
    rw [hwait] at hloop
    constructor
    · rcases hloop with ⟨-, hnext⟩ | ⟨pids, pids', hnone, -, -⟩ | ⟨hne, -⟩
      · exact hnext
      · cases hnone
      · exact absurd rfl hne
    · intro pid hpid
      rcases hmove.apps hpid with hpid' | ⟨pids, hstopping⟩
      · exact hpid'
      · rw [hwait] at hstopping
        cases hstopping
  cases x with
  | idle =>
    obtain ⟨hne, hnone⟩ := h
    rcases hloop with ⟨hnext, -⟩ | ⟨pids, pids', hsome, -, -⟩ | ⟨-, -, hne', hnone'⟩
    · exact absurd hnext hne
    · rw [hnone] at hsome
      cases hsome
    · exact ⟨hne', hnone'⟩
  | checking sent todo active stop =>
    obtain ⟨hwait, happs, hparted⟩ := h
    obtain ⟨hwait', hkeeps⟩ := hwaiting hwait
    exact ⟨hwait', fun pid hpid ↦ hkeeps pid (happs pid hpid), hparted⟩
  | popped sent active stop id =>
    obtain ⟨hwait, happs, hparted, hown⟩ := h
    obtain ⟨hwait', hkeeps⟩ := hwaiting hwait
    exact ⟨hwait', fun pid hpid ↦ hkeeps pid (happs pid hpid), hparted, hown⟩
  | answered sent stop request =>
    obtain ⟨hwait, happs, hallowed⟩ := h
    obtain ⟨hwait', hkeeps⟩ := hwaiting hwait
    exact ⟨hwait', fun pid hpid ↦ hkeeps pid (happs pid hpid), hallowed⟩
  | taken sent stop request =>
    obtain ⟨⟨pids, hpids, hsub⟩, happs, hallowed⟩ := h
    rcases hloop with ⟨hnext, -⟩ | ⟨pids₁, pids', hsome, hsome', hsub'⟩ | ⟨-, hnone, -⟩
    · rw [hnext] at hpids
      cases hpids
    · rw [hpids] at hsome
      cases hsome
      refine ⟨⟨pids', hsome', fun p hp ↦ hsub (hsub' hp)⟩, ?_, hallowed⟩
      intro pid hpid hstop
      rcases hmove.apps (happs pid hpid hstop) with hpid' | ⟨rest, hrest⟩
      · exact hpid'
      · -- only a pid of the answer's list is stopped
        rw [hpids] at hrest
        cases hrest
        exact absurd (hsub List.mem_cons_self) hstop
    · rw [hnone] at hpids
      cases hpids

/-- The invariant of the whole system. -/
structure HandOk (owner : RequestId → Pid) (s : HandSystem) : Prop where
  server : s.server.OwnPending owner
  exchange : ExchangeOk owner s.node s.exchange

theorem Allowed.none (sent stop : List Pid) : Allowed sent stop none := by
  intro id r h
  cases h

theorem HandOk.step (h : HandOk owner s) (hstep : HandStep owner s e s') : HandOk owner s' := by
  obtain ⟨hserver, hexchange⟩ := h
  cases hstep with
  | server server hown => exact ⟨hown, hexchange⟩
  | node hmove hquiet => exact ⟨hserver, hexchange.node hmove hquiet⟩
  | send pids hloop hnodup hne hpids =>
    exact ⟨hserver, rfl, fun pid hpid ↦ (hpids pid).mp hpid, Parted.start hnodup⟩
  | check hx =>
    rename_i sent todo active stop pid
    rw [hx] at hexchange
    obtain ⟨hwait, happs, hparted⟩ := hexchange
    have hnext := hparted.check (s.server.deploymentActive pid)
    refine ⟨hserver, ?_⟩
    cases hactive : s.server.deploymentActive pid with
    | true =>
      rw [hactive] at hnext
      exact ⟨hwait, happs, hnext⟩
    | false =>
      rw [hactive] at hnext
      exact ⟨hwait, happs, hnext⟩
  | pop hx hfind hpending =>
    rename_i sent active stop pid id rest
    rw [hx] at hexchange
    obtain ⟨hwait, happs, hparted⟩ := hexchange
    have hid : owner id = pid := by
      apply hserver.pending pid id
      rw [hpending]
      exact List.mem_cons_self
    refine ⟨⟨?_, hserver.request⟩, hwait, happs, hparted, ?_⟩
    · intro p id' hid'
      apply hserver.pending p id'
      have hmem : id' ∈ Function.update s.server.pending pid rest p := hid'
      by_cases hsame : p = pid
      · rw [hsame, Function.update_self] at hmem
        rw [hsame, hpending]
        exact List.mem_cons_of_mem _ hmem
      · rwa [Function.update_of_ne hsame] at hmem
    · rw [hid]
      exact List.mem_of_find?_eq_some hfind
  | popNone hx =>
    rw [hx] at hexchange
    obtain ⟨hwait, happs, -⟩ := hexchange
    exact ⟨hserver, hwait, happs, Allowed.none _ _⟩
  | readNone hx _ =>
    rw [hx] at hexchange
    obtain ⟨hwait, happs, -⟩ := hexchange
    exact ⟨hserver, hwait, happs, Allowed.none _ _⟩
  | read hx hrequest =>
    rename_i sent active stop id r
    rw [hx] at hexchange
    obtain ⟨hwait, happs, hparted, hown⟩ := hexchange
    refine ⟨hserver, hwait, happs, ?_⟩
    intro id' r' heq
    cases heq
    refine ⟨owner id, hparted.active_sent hown, ?_, hserver.request id r hrequest⟩
    intro hstop
    exact (hparted.stop_apart _ hstop).1 hown
  | take hloop hx =>
    rename_i sent stop request
    rw [hx] at hexchange
    obtain ⟨-, happs, hallowed⟩ := hexchange
    exact ⟨hserver, ⟨stop, rfl, List.Subset.refl _⟩, fun pid hpid _ ↦ happs pid hpid, hallowed⟩
  | lost hloop =>
    exact ⟨hserver, ⟨[], rfl, List.Subset.refl _⟩, fun pid hpid ↦ (List.not_mem_nil hpid).elim,
      Allowed.none _ _⟩
  | proxied hloop hx _ => exact ⟨hserver, by simp, rfl⟩
  | dropped hloop hx _ => exact ⟨hserver, by simp, rfl⟩
  | done hloop hx => exact ⟨hserver, by simp, rfl⟩

theorem handOk_run {server : RequestStore} (hserver : server.OwnPending owner)
    (h : HandRun owner (.initial server) s) : HandOk owner s := by
  induction h with
  | start => exact ⟨hserver, by simp [HandSystem.initial, ServeNodeState.initial], rfl⟩
  | step _ hstep ih => exact ih.step hstep

/-- The node's side of a run is a run of the serve loop. -/
theorem HandRun.node {server : RequestStore} (h : HandRun owner (.initial server) s) :
    NodeRun .initial s.node := by
  induction h with
  | start => exact .start
  | step _ hstep ih =>
    cases hstep with
    | node hmove _ => exact ih.step hmove
    | send pids hloop _ hne hpids =>
      obtain ⟨pid, rest, rfl⟩ := List.exists_cons_of_ne_nil hne
      exact ih.step (.list hloop ((hpids pid).mp List.mem_cons_self))
    | take hloop _ => exact ih.step (.answered _ hloop)
    | lost hloop => exact ih.step (.answered [] hloop)
    | proxied hloop _ _ => exact ih.step (.stopped hloop)
    | dropped hloop _ _ => exact ih.step (.stopped hloop)
    | done hloop _ => exact ih.step (.stopped hloop)
    | _ => exact ih

/-- A request that is handed out is for a deployment that the node has sent and that the answer
does not stop, and it finds its app. -/
theorem handed_request_hosted {server : RequestStore} (hserver : server.OwnPending owner)
    (h : HandRun owner (.initial server) s) (hstep : HandStep owner s e s') :
    (∀ sent stop request, e = .answered sent stop request →
      ∃ pid ∈ sent, pid ∉ stop ∧ request.2.pid = pid.text) ∧ ∀ request, e ≠ .dropped request := by
  have hok := handOk_run hserver h
  have hnext := hok.step hstep
  constructor
  · rintro sent stop ⟨id, r⟩ rfl
    cases hstep with
    | read hx hrequest =>
      obtain ⟨-, -, hallowed⟩ := hnext.exchange
      exact hallowed id r rfl
  · rintro ⟨id, r⟩ rfl
    cases hstep with
    | dropped hloop hx hnot =>
      have hexchange := hok.exchange
      rw [hx] at hexchange
      obtain ⟨-, happs, hallowed⟩ := hexchange
      obtain ⟨pid, hsent, hstop, htext⟩ := hallowed id r rfl
      exact hnot ⟨pid, htext.symm, happs pid hsent hstop⟩

end Invariant

/-! ## A run in which a request is handed out -/

namespace Sample

def webRequest : StoredRequest where
  pid := serveApp.text
  method := "GET"
  path := "/"
  headers := []
  bodyB64 := []

def webId : RequestId := ⟨"9c1f", by decide⟩

/-- One deployment, with one request on its list. -/
def oneRequest : RequestStore where
  deploymentActive pid := pid = serveApp
  pending pid := if pid = serveApp then [webId] else []
  request id := if id = webId then some webRequest else none

/-- The request has been taken from its list by the answer to the node. -/
def beforeRead : HandSystem where
  server := oneRequest.setPending serveApp []
  node := upAndServing.goTo .nextRequest
  exchange := .popped [serveApp] [serveApp] [] webId

theorem oneRequest_ownPending : oneRequest.OwnPending fun _ ↦ serveApp where
  pending := by
    intro pid id hid
    show serveApp = pid
    by_cases hsame : pid = serveApp
    · exact hsame.symm
    · have hid' : id ∈ (if pid = serveApp then [webId] else []) := hid
      rw [if_neg hsame] at hid'
      cases hid'
  request := by
    intro id r hr
    have hr' : (if id = webId then some webRequest else none) = some r := hr
    split at hr'
    · cases hr'
      rfl
    · cases hr'

theorem beforeRead_run : HandRun (fun _ ↦ serveApp) (.initial oneRequest) beforeRead := by
  have hclaimed : HandRun (fun _ ↦ serveApp) (.initial oneRequest)
      ⟨oneRequest, ServeNodeState.initial.goTo (.check serveApp), .idle⟩ :=
    .step .start (.node (.claimed serveApp rfl) rfl)
  have hfresh : HandRun (fun _ ↦ serveApp) (.initial oneRequest)
      ⟨oneRequest, ServeNodeState.initial.goTo (.insertStarting serveApp), .idle⟩ :=
    hclaimed.step (.node (.check rfl) rfl)
  have hspawned := (hfresh.step (.node (.insertStarting rfl) rfl)).step (.node (.spawn rfl) rfl)
  have hready := hspawned.step (.node (.setupOk (i := 0) 7 rfl) rfl)
  have hup : HandRun (fun _ ↦ serveApp) (.initial oneRequest) ⟨oneRequest, upAndServing, .idle⟩ :=
    hready.step (.node (.insert (i := 0) rfl) rfl)
  have hkeys : ∀ pid, pid ∈ [serveApp] ↔ upAndServing.apps pid ≠ none := by
    intro pid
    show pid ∈ [serveApp] ↔ Function.update (fun _ ↦ none) serveApp (some 7) pid ≠ none
    rw [List.mem_singleton]
    by_cases hsame : pid = serveApp
    · simp [hsame]
    · simp [hsame]
  have hsent := hup.step (.send [serveApp] rfl (by simp) (by simp) hkeys)
  have hchecked := hsent.step (.check rfl)
  exact hchecked.step (@HandStep.pop _ _ _ _ _ serveApp webId [] rfl (by decide) rfl)

end Sample

open Sample in
/-- The request on the list is handed out, for the deployment that the node has sent. -/
theorem handed_request_hosted_one :
    (∀ sent stop request,
      HandEvent.answered [serveApp] [] (webId, webRequest) = .answered sent stop request →
        ∃ pid ∈ sent, pid ∉ stop ∧ request.2.pid = pid.text) ∧
      ∀ request, HandEvent.answered [serveApp] [] (webId, webRequest) ≠ .dropped request :=
  handed_request_hosted oneRequest_ownPending beforeRead_run
    (@HandStep.read _ _ _ [serveApp] _ _ _ rfl rfl)

end TandemAio
