import TandemAio.Web

/-!
# Requests and responses are paired

What every interleaving of calls, polls and posts keeps: a request is in one place at a time, and a
response goes to the call that it answers.
-/

open Reasoning

namespace TandemAio

/-- The request has been pushed to the list of its deployment. -/
def CallPhase.isPushed : CallPhase → Bool
  | .begun | .stored | .storedTtl => false
  | _ => true

/-- The call has not taken a response. -/
def CallPhase.isUnserved : CallPhase → Bool
  | .served _ | .done => false
  | _ => true

/-- A call keeps its deployment and its request, and stays pushed and done. -/
structure Call.Continues (c c' : Call) : Prop where
  pid : c'.pid = c.pid
  request : c'.request = c.request
  pushed : c.phase.isPushed → c'.phase.isPushed
  done : c.phase = .done → c'.phase = .done

theorem Call.Continues.refl (c : Call) : c.Continues c := ⟨rfl, rfl, fun h ↦ h, fun h ↦ h⟩

namespace WebStore

variable {s s' : WebStore} {id : RequestId} {k : Nat}

/-! ## What a step can do -/

/-- Everything that a command of a call, a poll or a post can do, and the end of a deployment. -/
inductive Move (s : WebStore) : WebStore → Prop
  | beginCall {id : RequestId} {call : Call} : s.call id = none → call.phase = .begun →
      call.request.pid = call.pid.text → Move s (s.setCall id call)
  | store {id : RequestId} {call : Call} (expireAt : Option Int) : s.call id = some call →
      call.phase = .begun →
      Move s ((s.setRequest id ⟨some call.request, expireAt⟩).setCall id
        { call with phase := .stored })
  | storeTtl {id : RequestId} {call : Call} (expireAt : Option Int) : s.call id = some call →
      call.phase = .stored →
      Move s ((s.setRequest id ⟨((s.request id).live none s.now).value, expireAt⟩).setCall id
        { call with phase := .storedTtl })
  | push {id : RequestId} {call : Call} : s.call id = some call → call.phase = .storedTtl →
      Move s (((s.setPending call.pid ((s.pending call.pid).push s.now id)).setCall id
        { call with phase := .pushed }).note (.enqueued id call.pid))
  | pushTtl {id : RequestId} {call : Call} : s.call id = some call → call.phase = .pushed →
      Move s ((s.setPending call.pid
        ((s.pending call.pid).expire s.now serveRequestTtlSeconds)).setCall id
          { call with phase := .enqueued })
  | wait {id : RequestId} {call : Call} : s.call id = some call → call.phase = .enqueued →
      ((s.response id).live [] s.now).value = [] →
      Move s (s.setCall id { call with phase := .waiting })
  | take {id : RequestId} {call : Call} {reply : Reply} {rest : List Reply} :
      s.call id = some call → call.phase = .enqueued →
      ((s.response id).live [] s.now).value = reply :: rest →
      Move s (((s.setResponse id ((s.response id).pop s.now)).setCall id
        { call with phase := .served reply }).note (.taken id reply.post s.now))
  | timeOut {id : RequestId} {call : Call} : s.call id = some call → call.phase.isPushed →
      call.phase ≠ .done → Move s (s.setCall id { call with phase := .done })
  | returnResponse {id : RequestId} {call : Call} {reply : Reply} : s.call id = some call →
      call.phase = .served reply →
      Move s ((s.setCall id { call with phase := .done }).note
        (.returned id reply.post reply.response))
  | beginPoll {k : Nat} (nodeId : NodeId) (pids : List Pid) : s.poll k = none →
      Move s ((s.setPoll k ⟨nodeId, pids, [], .checking⟩).note (.polled k nodeId pids))
  | found {k : Nat} {poll : NodePoll} {pid : Pid} {rest : List Pid} (host : HostStore) :
      s.poll k = some poll → poll.phase = .checking → poll.todo = pid :: rest →
      s.host.deploymentActive pid →
      Move s (((s.setHost host).setPoll k
        { poll with todo := rest, active := poll.active ++ [pid] }).note (.foundActive k pid))
  | skip {k : Nat} {poll : NodePoll} {pid : Pid} {rest : List Pid} : s.poll k = some poll →
      poll.phase = .checking → poll.todo = pid :: rest →
      Move s (s.setPoll k { poll with todo := rest })
  | block {k : Nat} {poll : NodePoll} : s.poll k = some poll →
      poll.phase = .blocked ∨ poll.phase = .checking →
      Move s (s.setPoll k { poll with phase := .blocked })
  | pop {k : Nat} {poll : NodePoll} {pid : Pid} {id : RequestId} {rest : List RequestId} :
      s.poll k = some poll → poll.phase = .blocked ∨ poll.phase = .checking → pid ∈ poll.active →
      ((s.pending pid).live [] s.now).value = id :: rest →
      Move s ((s.setPending pid ((s.pending pid).pop s.now)).setPoll k
        { poll with phase := .popped id })
  | endPoll {k : Nat} {poll : NodePoll} : s.poll k = some poll →
      Move s (s.setPoll k { poll with phase := .done })
  | hand {k : Nat} {poll : NodePoll} {id : RequestId} {request : StoredRequest} :
      s.poll k = some poll → poll.phase = .popped id →
      ((s.request id).live none s.now).value = some request →
      Move s ((s.setPoll k { poll with phase := .done }).note (.handed k poll.nodeId id request))
  | postServed {id : RequestId} {call : Call} (nodeId : NodeId) (response : AppResponse) :
      s.call id = some call → call.phase = .waiting →
      Move s (((((s.setDue (id :: s.ttlDue)).note (.posted id nodeId response s.now)).setCall id
        { call with phase := .served ⟨s.log.length, response⟩ })).note
          (.taken id s.log.length s.now))
  | postQueued {id : RequestId} {call : Call} (nodeId : NodeId) (response : AppResponse) :
      s.call id = some call → call.phase ≠ .waiting →
      Move s (((s.setDue (id :: s.ttlDue)).note (.posted id nodeId response s.now)).setResponse id
        ((s.response id).push s.now ⟨s.log.length, response⟩))
  | expire {id : RequestId} (due : List RequestId) :
      Move s ((s.setResponse id ((s.response id).expire s.now serveRequestTtlSeconds)).setDue due)
  | tick {now : Time} : s.now ≤ now → Move s (s.setNow now)
  | remove (pid : Pid) : Move s (s.setPending pid ⟨[], none⟩)

theorem enqueueCommand_move (h : s.enqueueCommand id = some s') : s.Move s' := by
  unfold enqueueCommand at h
  split at h
  · cases h
  · rename_i call hcall
    split at h
    · rename_i hphase
      cases h
      exact .store _ hcall hphase
    · rename_i hphase
      cases h
      exact .storeTtl _ hcall hphase
    · rename_i hphase
      cases h
      exact .push hcall hphase
    · rename_i hphase
      cases h
      exact .pushTtl hcall hphase
    · cases h

theorem awaitResponse_move (h : s.awaitResponse id = some s') : s.Move s' := by
  unfold awaitResponse at h
  split at h
  · cases h
  · rename_i call hcall
    split at h
    · cases h
    · rename_i hphase
      have hphase := not_not.mp hphase
      split at h
      · rename_i hnil
        cases h
        exact .wait hcall hphase hnil
      · rename_i hcons
        cases h
        exact .take hcall hphase hcons

theorem timeOut_move (h : s.timeOut id = some s') : s.Move s' := by
  unfold timeOut at h
  split at h
  · cases h
  · rename_i call hcall
    split at h
    · rename_i hphase
      cases h
      exact .timeOut hcall (by rw [hphase]; rfl) (by rw [hphase]; decide)
    · rename_i reply hphase
      cases h
      exact .timeOut hcall (by rw [hphase]; rfl) (by rw [hphase]; intro hdone; cases hdone)
    · cases h

theorem returnResponse_move (h : s.returnResponse id = some s') : s.Move s' := by
  unfold returnResponse at h
  split at h
  · cases h
  · rename_i call hcall
    split at h
    · rename_i reply hphase
      cases h
      exact .returnResponse hcall hphase
    · cases h

theorem checkPid_move (h : s.checkPid k = some s') : s.Move s' := by
  unfold checkPid at h
  split at h
  · cases h
  · rename_i poll hpoll
    split at h
    · rename_i pid rest hphase htodo
      split at h
      · rename_i hactive
        cases h
        exact .found _ hpoll hphase htodo hactive
      · cases h
        exact .skip hpoll hphase htodo
    · cases h

theorem popPending_move (h : s.popPending k = some s') : s.Move s' := by
  unfold popPending at h
  split at h
  · cases h
  · rename_i poll hpoll
    split at h
    · rename_i hready
      have hphase : poll.phase = .blocked ∨ poll.phase = .checking := hready.imp id And.left
      split at h
      · cases h
        exact .block hpoll hphase
      · rename_i pid hfind
        split at h
        · cases h
        · rename_i request rest hlist
          cases h
          exact .pop hpoll hphase (List.mem_of_find?_eq_some hfind) hlist
    · cases h

theorem readRequest_move (h : s.readRequest k = some s') : s.Move s' := by
  unfold readRequest at h
  split at h
  · cases h
  · rename_i poll hpoll
    split at h
    · rename_i request hphase
      split at h
      · cases h
        exact .endPoll hpoll
      · rename_i hash hread
        cases h
        exact .hand hpoll hphase hread
    · cases h

theorem post_move {nodeId : NodeId} {response : AppResponse}
    (h : s.post nodeId id response = some s') : s.Move s' := by
  unfold post at h
  split at h
  · cases h
  · dsimp only at h
    split at h
    · cases h
    · rename_i call hcall
      split at h
      · rename_i hphase
        cases h
        exact .postServed nodeId response hcall hphase
      · rename_i hphase
        cases h
        exact .postQueued nodeId response hcall hphase

/-- A command is one of the moves. -/
theorem step_move {a : WebAction} (h : s.step a = some s') : s.Move s' := by
  cases a with
  | beginCall id pid request =>
    unfold step beginCall at h
    dsimp only at h
    split at h
    · cases h
    · rename_i hcall
      split at h
      · cases h
      · cases h
        exact .beginCall hcall rfl rfl
  | enqueueCommand id => exact enqueueCommand_move h
  | awaitResponse id => exact awaitResponse_move h
  | timeOut id => exact timeOut_move h
  | returnResponse id => exact returnResponse_move h
  | beginPoll k nodeId pids =>
    unfold step beginPoll at h
    dsimp only at h
    split at h
    · cases h
    · rename_i hpoll
      cases h
      exact .beginPoll nodeId pids hpoll
  | checkPid k => exact checkPid_move h
  | popPending k => exact popPending_move h
  | pollTimeOut k =>
    unfold step pollTimeOut at h
    dsimp only at h
    split at h
    · cases h
    · rename_i poll hpoll
      cases h
      exact .endPoll hpoll
  | readRequest k => exact readRequest_move h
  | post nodeId id response => exact post_move h
  | expireResponse id =>
    unfold step expireResponse at h
    dsimp only at h
    split at h
    · cases h
      exact .expire _
    · cases h
  | tick now =>
    unfold step at h
    dsimp only at h
    split at h
    · rename_i hle
      cases h
      exact .tick hle
    · cases h

/-! ## The log only grows -/

theorem Move.log (h : s.Move s') : ∃ events, s'.log = s.log ++ events := by
  cases h with
  | postServed => exact ⟨[_, _], List.append_assoc _ _ _⟩
  | push | take | returnResponse | beginPoll | found | hand | postQueued => exact ⟨[_], rfl⟩
  | _ => exact ⟨[], (List.append_nil _).symm⟩

theorem Move.mem_log (h : s.Move s') : s.log ⊆ s'.log := by
  obtain ⟨events, hlog⟩ := h.log
  rw [hlog]
  exact List.subset_append_left _ _

theorem Move.get_log (h : s.Move s') {i : Nat} {e : WebEvent} (he : s.log[i]? = some e) :
    s'.log[i]? = some e := by
  obtain ⟨events, hlog⟩ := h.log
  obtain ⟨hlt, -⟩ := List.getElem?_eq_some_iff.mp he
  rw [hlog, List.getElem?_append_left hlt]
  exact he

/-! ## Calls go on -/

theorem setPhase_continues {call c : Call} {phase : CallPhase} {id' : RequestId}
    (hcall : s.call id = some call) (hdone : call.phase ≠ .done)
    (hpushed : call.phase.isPushed → phase.isPushed) (h : s.call id' = some c) :
    ∃ c', Function.update s.call id (some { call with phase := phase }) id' = some c' ∧
      c.Continues c' := by
  by_cases hid : id' = id
  · subst hid
    rw [hcall] at h
    cases h
    exact ⟨_, Function.update_self .., rfl, rfl, hpushed, fun h ↦ absurd h hdone⟩
  · exact ⟨c, by rw [Function.update_of_ne hid, h], .refl c⟩

theorem Move.call (h : s.Move s') {c : Call} (hc : s.call id = some c) :
    ∃ c', s'.call id = some c' ∧ c.Continues c' := by
  cases h with
  | beginCall hnone hphase hpid =>
    rename_i id' call
    have hne : id ≠ id' := by
      rintro rfl
      rw [hnone] at hc
      cases hc
    exact ⟨c, (Function.update_of_ne hne _ _).trans hc, .refl c⟩
  | store expireAt hcall hphase | storeTtl expireAt hcall hphase =>
    refine setPhase_continues hcall (by rw [hphase]; simp) (fun hpushed ↦ ?_) hc
    rw [hphase] at hpushed
    cases hpushed
  | push hcall hphase | pushTtl hcall hphase | wait hcall hphase | take hcall hphase
  | returnResponse hcall hphase =>
    exact setPhase_continues hcall (by rw [hphase]; simp) (fun _ ↦ rfl) hc
  | timeOut hcall hpushed hphase => exact setPhase_continues hcall hphase (fun _ ↦ rfl) hc
  | postServed nodeId response hcall hphase =>
    exact setPhase_continues hcall (by rw [hphase]; simp) (fun _ ↦ rfl) hc
  | _ => exact ⟨c, hc, .refl c⟩

/-- Where a call comes from: it was there, or it begins. -/
def CallFrom (s s' : WebStore) (id : RequestId) (c' : Call) : Prop :=
  (∃ c, s.call id = some c ∧ c.pid = c'.pid ∧ c.request = c'.request ∧
    (c'.phase.isPushed → c.phase.isPushed ∨ .enqueued id c'.pid ∈ s'.log)) ∨
  (c'.phase.isPushed = false ∧ c'.request.pid = c'.pid.text)

theorem setPhase_from {call c' : Call} {phase : CallPhase} {id' : RequestId}
    (hcall : s.call id = some call)
    (hpushed : phase.isPushed → call.phase.isPushed ∨ .enqueued id call.pid ∈ s'.log)
    (h : Function.update s.call id (some { call with phase := phase }) id' = some c') :
    CallFrom s s' id' c' := by
  by_cases hid : id' = id
  · subst hid
    rw [Function.update_self] at h
    cases h
    exact Or.inl ⟨call, hcall, rfl, rfl, hpushed⟩
  · rw [Function.update_of_ne hid] at h
    exact Or.inl ⟨c', h, rfl, rfl, Or.inl⟩

theorem Move.callFrom (h : s.Move s') {c' : Call} (hc : s'.call id = some c') :
    CallFrom s s' id c' := by
  cases h with
  | beginCall hnone hphase hpid =>
    rename_i id' call
    rw [setCall_call] at hc
    by_cases hid : id = id'
    · subst hid
      rw [Function.update_self] at hc
      cases hc
      exact Or.inr ⟨by rw [hphase]; rfl, hpid⟩
    · rw [Function.update_of_ne hid] at hc
      exact Or.inl ⟨c', hc, rfl, rfl, Or.inl⟩
  | store expireAt hcall hphase => exact setPhase_from hcall (fun h ↦ by cases h) hc
  | storeTtl expireAt hcall hphase => exact setPhase_from hcall (fun h ↦ by cases h) hc
  | push hcall hphase =>
    exact setPhase_from hcall (fun _ ↦ Or.inr (List.mem_append_right _ (by simp))) hc
  | pushTtl hcall hphase =>
    exact setPhase_from hcall (fun _ ↦ Or.inl (by rw [hphase]; rfl)) hc
  | wait hcall hphase => exact setPhase_from hcall (fun _ ↦ Or.inl (by rw [hphase]; rfl)) hc
  | take hcall hphase => exact setPhase_from hcall (fun _ ↦ Or.inl (by rw [hphase]; rfl)) hc
  | timeOut hcall hpushed => exact setPhase_from hcall (fun _ ↦ Or.inl hpushed) hc
  | returnResponse hcall hphase =>
    exact setPhase_from hcall (fun _ ↦ Or.inl (by rw [hphase]; rfl)) hc
  | postServed nodeId response hcall hphase =>
    exact setPhase_from hcall (fun _ ↦ Or.inl (by rw [hphase]; rfl)) hc
  | _ => exact Or.inl ⟨c', hc, rfl, rfl, Or.inl⟩

/-! ## Who a request belongs to -/

/-- The request with this id was put on the list of a deployment. -/
def Enqueued (s : WebStore) (id : RequestId) (pid : Pid) : Prop :=
  ∃ c, s.call id = some c ∧ c.pid = pid ∧ c.phase.isPushed

theorem Enqueued.move {pid : Pid} (h : s.Enqueued id pid) (hm : s.Move s') :
    s'.Enqueued id pid := by
  obtain ⟨c, hc, hpid, hpushed⟩ := h
  obtain ⟨c', hc', hcontinues⟩ := hm.call hc
  exact ⟨c', hc', hcontinues.pid.trans hpid, hcontinues.pushed hpushed⟩

/-- A poll was made by the node, listed these pids and has found some of them active. -/
structure PollLogged (log : List WebEvent) (k : Nat) (poll : NodePoll) : Prop where
  polled : ∃ pids, .polled k poll.nodeId pids ∈ log ∧ poll.todo ⊆ pids ∧ poll.active ⊆ pids
  active : ∀ pid ∈ poll.active, .foundActive k pid ∈ log

/-- A request was handed to a poll that listed its deployment and found it active. -/
def HandedOwn (log : List WebEvent) (k : Nat) (n : NodeId) (id : RequestId)
    (request : StoredRequest) : Prop :=
  ∃ pid pids, .enqueued id pid ∈ log ∧ .polled k n pids ∈ log ∧ pid ∈ pids ∧
    .foundActive k pid ∈ log ∧ request.pid = pid.text

structure Owned (s : WebStore) : Prop where
  call_pid : ∀ id c, s.call id = some c → c.request.pid = c.pid.text
  call_log : ∀ id c, s.call id = some c → c.phase.isPushed → .enqueued id c.pid ∈ s.log
  request : ∀ id r, (s.request id).value = some r → ∃ c, s.call id = some c ∧ c.request = r
  pending : ∀ pid id, id ∈ (s.pending pid).value → s.Enqueued id pid
  poll : ∀ k poll, s.poll k = some poll → PollLogged s.log k poll
  popped : ∀ k poll id, s.poll k = some poll → poll.phase = .popped id →
    ∃ pid ∈ poll.active, s.Enqueued id pid
  handed : ∀ k n id r, .handed k n id r ∈ s.log → HandedOwn s.log k n id r

theorem PollLogged.mono {log log' : List WebEvent} {poll : NodePoll} (h : PollLogged log k poll)
    (hsub : log ⊆ log') : PollLogged log' k poll := by
  obtain ⟨pids, hpids, htodo, hactive⟩ := h.polled
  exact ⟨⟨pids, hsub hpids, htodo, hactive⟩, fun pid hpid ↦ hsub (h.active pid hpid)⟩

theorem HandedOwn.mono {log log' : List WebEvent} {n : NodeId} {r : StoredRequest}
    (h : HandedOwn log k n id r) (hsub : log ⊆ log') : HandedOwn log' k n id r := by
  obtain ⟨pid, pids, henqueued, hpolled, hmem, hactive, hpid⟩ := h
  exact ⟨pid, pids, hsub henqueued, hsub hpolled, hmem, hsub hactive, hpid⟩

theorem Owned.initial (host : HostStore) : (WebStore.initial host).Owned where
  call_pid := fun _ _ h ↦ by cases h
  call_log := fun _ _ h ↦ by cases h
  request := fun _ _ h ↦ by cases h
  pending := fun _ _ h ↦ by cases h
  poll := fun _ _ h ↦ by cases h
  popped := fun _ _ _ h ↦ by cases h
  handed := fun _ _ _ _ h ↦ by cases h

theorem Owned.request_move (ho : s.Owned) (h : s.Move s') {r : StoredRequest}
    (hr : (s'.request id).value = some r) : ∃ c, s'.call id = some c ∧ c.request = r := by
  have hback : (s.request id).value = some r ∨ ∃ c, s.call id = some c ∧ c.request = r := by
    cases h with
    | store expireAt hcall hphase =>
      rename_i id' call
      rw [setCall_request, setRequest_request] at hr
      by_cases hid : id = id'
      · subst hid
        rw [Function.update_self] at hr
        exact Or.inr ⟨call, hcall, Option.some.inj hr⟩
      · rw [Function.update_of_ne hid] at hr
        exact Or.inl hr
    | storeTtl expireAt hcall hphase =>
      rename_i id' call
      rw [setCall_request, setRequest_request] at hr
      by_cases hid : id = id'
      · subst hid
        rw [Function.update_self] at hr
        rcases Expiring.live_eq_or none s.now (s.request id) with ⟨hlive, -⟩ | ⟨hlive, -⟩
        · rw [hlive] at hr
          exact Or.inl hr
        · rw [hlive] at hr
          cases hr
      · rw [Function.update_of_ne hid] at hr
        exact Or.inl hr
    | _ => exact Or.inl hr
  have hold : ∃ c, s.call id = some c ∧ c.request = r := hback.elim (ho.request id r) fun h ↦ h
  obtain ⟨c, hc, hcr⟩ := hold
  obtain ⟨c', hc', hcontinues⟩ := h.call hc
  exact ⟨c', hc', hcontinues.request.trans hcr⟩

theorem Owned.pending_move (ho : s.Owned) (h : s.Move s') {pid : Pid}
    (hid : id ∈ (s'.pending pid).value) : s'.Enqueued id pid := by
  have hback : id ∈ (s.pending pid).value ∨ s'.Enqueued id pid := by
    cases h with
    | push hcall hphase =>
      rename_i id' call
      simp only [note_pending, setCall_pending, setPending_pending] at hid
      by_cases hpid : pid = call.pid
      · subst hpid
        rw [Function.update_self, Expiring.push_value, List.mem_append, List.mem_singleton] at hid
        rcases hid with hid | rfl
        · exact Or.inl (Expiring.live_sublist.mem hid)
        · exact Or.inr ⟨_, Function.update_self .., rfl, rfl⟩
      · rw [Function.update_of_ne hpid] at hid
        exact Or.inl hid
    | pushTtl hcall hphase =>
      rename_i id' call
      simp only [setCall_pending, setPending_pending] at hid
      by_cases hpid : pid = call.pid
      · subst hpid
        rw [Function.update_self, Expiring.expire_value] at hid
        exact Or.inl (Expiring.live_sublist.mem hid)
      · rw [Function.update_of_ne hpid] at hid
        exact Or.inl hid
    | pop hpoll hphase hactive hlist =>
      rename_i k poll pid' id' rest
      simp only [setPoll_pending, setPending_pending] at hid
      by_cases hpid : pid = pid'
      · subst hpid
        rw [Function.update_self, Expiring.pop_value] at hid
        exact Or.inl (Expiring.live_sublist.mem (List.mem_of_mem_tail hid))
      · rw [Function.update_of_ne hpid] at hid
        exact Or.inl hid
    | remove pid' =>
      rw [setPending_pending] at hid
      by_cases hpid : pid = pid'
      · subst hpid
        rw [Function.update_self] at hid
        cases hid
      · rw [Function.update_of_ne hpid] at hid
        exact Or.inl hid
    | _ => exact Or.inl hid
  exact hback.elim (fun hid ↦ (ho.pending pid id hid).move h) fun h ↦ h

/-- A poll that a step leaves: another one, or the one that the step sets. -/
theorem poll_of_update {k' : Nat} {poll poll' : NodePoll}
    (h : Function.update s.poll k' (some poll) k = some poll') :
    s.poll k = some poll' ∨ k = k' ∧ poll' = poll := by
  by_cases hk : k = k'
  · subst hk
    rw [Function.update_self] at h
    cases h
    exact Or.inr ⟨rfl, rfl⟩
  · rw [Function.update_of_ne hk] at h
    exact Or.inl h

theorem Owned.poll_move (ho : s.Owned) (h : s.Move s') {poll' : NodePoll}
    (hpoll : s'.poll k = some poll') : PollLogged s'.log k poll' := by
  have hsub := h.mem_log
  cases h with
  | beginPoll nodeId pids hnone =>
    rcases poll_of_update hpoll with hpoll | ⟨rfl, rfl⟩
    · exact (ho.poll _ _ hpoll).mono hsub
    · exact ⟨⟨pids, List.mem_append_right _ (by simp), List.Subset.refl _, List.nil_subset _⟩,
        fun pid hpid ↦ by cases hpid⟩
  | found host hold hphase htodo hactive =>
    rcases poll_of_update hpoll with hpoll | ⟨rfl, rfl⟩
    · exact (ho.poll _ _ hpoll).mono hsub
    · obtain ⟨⟨pids, hpids, htodo', hactive'⟩, hfound⟩ := (ho.poll _ _ hold).mono hsub
      rw [htodo] at htodo'
      obtain ⟨hpid, hrest⟩ := List.cons_subset.mp htodo'
      refine ⟨⟨pids, hpids, hrest, List.append_subset.mpr ⟨hactive', by simpa using hpid⟩⟩, ?_⟩
      intro pid hpid'
      rcases List.mem_append.mp hpid' with hpid' | hpid'
      · exact hfound pid hpid'
      · rw [List.mem_singleton.mp hpid']
        exact List.mem_append_right _ (by simp)
  | skip hold hphase htodo =>
    rcases poll_of_update hpoll with hpoll | ⟨rfl, rfl⟩
    · exact (ho.poll _ _ hpoll).mono hsub
    · obtain ⟨⟨pids, hpids, htodo', hactive'⟩, hfound⟩ := (ho.poll _ _ hold).mono hsub
      rw [htodo] at htodo'
      exact ⟨⟨pids, hpids, (List.cons_subset.mp htodo').2, hactive'⟩, hfound⟩
  | block hold | pop hold | endPoll hold | hand hold =>
    rcases poll_of_update hpoll with hpoll | ⟨rfl, rfl⟩
    · exact (ho.poll _ _ hpoll).mono hsub
    · obtain ⟨hpolled, hfound⟩ := (ho.poll _ _ hold).mono hsub
      exact ⟨hpolled, hfound⟩
  | _ => exact (ho.poll _ _ hpoll).mono hsub

/-- A poll that has taken a request found the deployment of the request active. -/
theorem Owned.popped_move (ho : s.Owned) (h : s.Move s') {poll' : NodePoll}
    (hpoll : s'.poll k = some poll') (hphase : poll'.phase = .popped id) :
    ∃ pid ∈ poll'.active, s'.Enqueued id pid := by
  have hback : ∃ pid ∈ poll'.active, s.Enqueued id pid := by
    cases h with
    | beginPoll nodeId pids hnone =>
      rcases poll_of_update hpoll with hpoll | ⟨rfl, rfl⟩
      · exact ho.popped _ _ _ hpoll hphase
      · cases hphase
    | found host hold hchecking =>
      rcases poll_of_update hpoll with hpoll | ⟨rfl, rfl⟩
      · exact ho.popped _ _ _ hpoll hphase
      · rw [hchecking] at hphase
        cases hphase
    | skip hold hchecking =>
      rcases poll_of_update hpoll with hpoll | ⟨rfl, rfl⟩
      · exact ho.popped _ _ _ hpoll hphase
      · rw [hchecking] at hphase
        cases hphase
    | pop hold hready hactive hlist =>
      rename_i k' poll pid id' rest
      rcases poll_of_update hpoll with hpoll | ⟨rfl, rfl⟩
      · exact ho.popped _ _ _ hpoll hphase
      · cases hphase
        have hmem : id ∈ ((s.pending pid).live [] s.now).value := by
          rw [hlist]
          exact List.mem_cons_self
        exact ⟨pid, hactive, ho.pending pid id (Expiring.live_sublist.mem hmem)⟩
    | block hold | endPoll hold | hand hold =>
      rcases poll_of_update hpoll with hpoll | ⟨rfl, rfl⟩
      · exact ho.popped _ _ _ hpoll hphase
      · cases hphase
    | _ => exact ho.popped _ _ _ hpoll hphase
  obtain ⟨pid, hpid, henqueued⟩ := hback
  exact ⟨pid, hpid, henqueued.move h⟩

theorem Owned.handed_move (ho : s.Owned) (h : s.Move s') {n : NodeId} {r : StoredRequest}
    (hr : .handed k n id r ∈ s'.log) : HandedOwn s'.log k n id r := by
  have hsub := h.mem_log
  have hback : .handed k n id r ∈ s.log ∨ HandedOwn s.log k n id r := by
    cases h with
    | hand hpoll hphase hread =>
      rename_i k' poll id' request
      rcases List.mem_append.mp hr with hr | hr
      · exact Or.inl hr
      · cases List.mem_singleton.mp hr
        obtain ⟨pid, hpid, c, hc, rfl, hpushed⟩ := ho.popped _ _ _ hpoll hphase
        obtain ⟨⟨pids, hpids, -, hactive⟩, hfound⟩ := ho.poll _ _ hpoll
        have hvalue : (s.request id).value = some r := by
          rcases Expiring.live_eq_or none s.now (s.request id) with ⟨hlive, -⟩ | ⟨hlive, -⟩
          · rw [hlive] at hread
            exact hread
          · rw [hlive] at hread
            cases hread
        obtain ⟨c', hc', rfl⟩ := ho.request id _ hvalue
        rw [hc] at hc'
        cases hc'
        exact Or.inr ⟨c.pid, pids, ho.call_log id c hc hpushed, hpids, hactive hpid,
          hfound _ hpid, ho.call_pid id c hc⟩
    | postServed =>
      rcases List.mem_append.mp hr with hr | hr
      · rcases List.mem_append.mp hr with hr | hr
        · exact Or.inl hr
        · cases List.mem_singleton.mp hr
      · cases List.mem_singleton.mp hr
    | push | take | returnResponse | beginPoll | found | postQueued =>
      rcases List.mem_append.mp hr with hr | hr
      · exact Or.inl hr
      · cases List.mem_singleton.mp hr
    | _ => exact Or.inl hr
  exact hback.elim (fun hr ↦ (ho.handed k n id r hr).mono hsub) fun h ↦ h.mono hsub

theorem Owned.move (ho : s.Owned) (h : s.Move s') : s'.Owned where
  call_pid := fun id c' hc' ↦ by
    rcases h.callFrom hc' with ⟨c, hc, hpid, hrequest, -⟩ | ⟨-, hpid⟩
    · rw [← hpid, ← hrequest]
      exact ho.call_pid id c hc
    · exact hpid
  call_log := fun id c' hc' hpushed ↦ by
    rcases h.callFrom hc' with ⟨c, hc, hpid, -, hfrom⟩ | ⟨hnot, -⟩
    · rcases hfrom hpushed with hold | hnew
      · rw [← hpid]
        exact h.mem_log (ho.call_log id c hc hold)
      · exact hnew
    · rw [hnot] at hpushed
      cases hpushed
  request := fun _ _ hr ↦ ho.request_move h hr
  pending := fun _ _ hid ↦ ho.pending_move h hid
  poll := fun _ _ hpoll ↦ ho.poll_move h hpoll
  popped := fun _ _ _ hpoll hphase ↦ ho.popped_move h hpoll hphase
  handed := fun _ _ _ _ hr ↦ ho.handed_move h hr

theorem Owned.setHost (ho : s.Owned) (host : HostStore) : (s.setHost host).Owned :=
  ⟨ho.call_pid, ho.call_log, ho.request, ho.pending, ho.poll, ho.popped, ho.handed⟩

/-! ## Where a request is -/

inductive Place
  | nowhere
  | queued (pid : Pid)
  | polled (k : Nat)
  | handed
deriving DecidableEq

def isHanded (id : RequestId) : WebEvent → Bool
  | .handed _ _ i _ => i = id
  | _ => false

/-- A poll has taken the request from its list and not read it. -/
def PoppedBy (s : WebStore) (k : Nat) (id : RequestId) : Prop :=
  ∃ poll, s.poll k = some poll ∧ poll.phase = .popped id

/-- The request is in this place and in no other. -/
structure At (s : WebStore) (id : RequestId) (place : Place) : Prop where
  queued : ∀ pid, (s.pending pid).value.count id = if place = .queued pid then 1 else 0
  polled : ∀ k, s.PoppedBy k id ↔ place = .polled k
  handed : s.log.countP (isHanded id) = if place = .handed then 1 else 0
  begun : place ≠ .nowhere → ∃ c, s.call id = some c ∧ c.phase.isPushed

def Placed (s : WebStore) : Prop := ∀ id, ∃ place, s.At id place

theorem Placed.initial (host : HostStore) : (WebStore.initial host).Placed := by
  intro id
  refine ⟨.nowhere, fun _ ↦ rfl, fun k ↦ ?_, rfl, fun h ↦ absurd rfl h⟩
  constructor
  · rintro ⟨poll, hpoll, -⟩
    cases hpoll
  · intro h
    cases h

variable {place : Place}

theorem At.begun_move (h : s.At id place) (hm : s.Move s') (hne : place ≠ .nowhere) :
    ∃ c, s'.call id = some c ∧ c.phase.isPushed := by
  obtain ⟨c, hc, hpushed⟩ := h.begun hne
  obtain ⟨c', hc', hcontinues⟩ := hm.call hc
  exact ⟨c', hc', hcontinues.pushed hpushed⟩

/-- A step that does not concern the request leaves it where it is. -/
theorem At.frame (h : s.At id place) (hm : s.Move s')
    (hpending : ∀ pid, (s'.pending pid).value.count id = (s.pending pid).value.count id)
    (hpoll : ∀ k, s'.PoppedBy k id ↔ s.PoppedBy k id)
    (hlog : s'.log.countP (isHanded id) = s.log.countP (isHanded id)) : s'.At id place :=
  ⟨fun pid ↦ (hpending pid).trans (h.queued pid), fun k ↦ (hpoll k).trans (h.polled k),
    hlog.trans h.handed, h.begun_move hm⟩

/-- A list that is gone loses the request. -/
theorem At.emptied (h : s.At id place) (hm : s.Move s') (pid : Pid)
    {list : Expiring (List RequestId)} (hpending : s'.pending = Function.update s.pending pid list)
    (hlist : list.value.count id = 0) (hpoll : ∀ k, s'.PoppedBy k id ↔ s.PoppedBy k id)
    (hlog : s'.log.countP (isHanded id) = s.log.countP (isHanded id)) :
    ∃ place', s'.At id place' := by
  by_cases hplace : place = .queued pid
  · -- the request was in this list
    refine ⟨.nowhere, fun pid' ↦ ?_, fun k ↦ ?_, ?_, fun hne ↦ absurd rfl hne⟩
    · rw [hpending]
      by_cases hpid : pid' = pid
      · rw [hpid, Function.update_self, hlist]
        rfl
      · rw [Function.update_of_ne hpid, h.queued pid', hplace]
        simp [Ne.symm hpid]
    · rw [hpoll, h.polled, hplace]
      simp
    · rw [hlog, h.handed, hplace]
      rfl
  · refine ⟨place, h.frame hm (fun pid' ↦ ?_) hpoll hlog⟩
    rw [hpending]
    by_cases hpid : pid' = pid
    · rw [hpid, Function.update_self, hlist, h.queued pid, if_neg hplace]
    · rw [Function.update_of_ne hpid]

/-- A list that has expired is gone. -/
theorem At.relist (h : s.At id place) (hm : s.Move s') (pid : Pid)
    {list : Expiring (List RequestId)} (hpending : s'.pending = Function.update s.pending pid list)
    (hlist : list.value.count id = ((s.pending pid).live [] s.now).value.count id)
    (hpoll : ∀ k, s'.PoppedBy k id ↔ s.PoppedBy k id)
    (hlog : s'.log.countP (isHanded id) = s.log.countP (isHanded id)) :
    ∃ place', s'.At id place' := by
  rcases Expiring.live_eq_or [] s.now (s.pending pid) with ⟨hlive, -⟩ | ⟨hlive, -⟩
  · refine ⟨place, h.frame hm (fun pid' ↦ ?_) hpoll hlog⟩
    rw [hpending]
    by_cases hpid : pid' = pid
    · rw [hpid, Function.update_self, hlist, hlive]
    · rw [Function.update_of_ne hpid]
  · rw [hlive, List.count_nil] at hlist
    exact h.emptied hm pid hpending hlist hpoll hlog

/-- A poll that has no request before and after a step. -/
theorem poppedBy_update {k' : Nat} {poll : NodePoll}
    (hold : ∀ poll', s.poll k' = some poll' → poll'.phase ≠ .popped id)
    (hnew : poll.phase ≠ .popped id) (hpoll : s'.poll = Function.update s.poll k' (some poll)) :
    s'.PoppedBy k id ↔ s.PoppedBy k id := by
  unfold PoppedBy
  rw [hpoll]
  by_cases hk : k = k'
  · subst hk
    rw [Function.update_self]
    constructor
    · rintro ⟨poll', heq, hphase⟩
      cases heq
      exact absurd hphase hnew
    · rintro ⟨poll', heq, hphase⟩
      exact absurd hphase (hold poll' heq)
  · rw [Function.update_of_ne hk]

theorem countP_concat {f : WebEvent → Bool} {e : WebEvent} (h : f e = false)
    (log : List WebEvent) : (log ++ [e]).countP f = log.countP f := by
  rw [List.countP_append, List.countP_singleton, h]
  rfl

theorem At.push {call : Call} {id' : RequestId} (h : s.At id place) (hcall : s.call id' = some call)
    (hphase : call.phase = .storedTtl) :
    ∃ place', (((s.setPending call.pid ((s.pending call.pid).push s.now id')).setCall id'
        { call with phase := .pushed }).note (.enqueued id' call.pid)).At id place' := by
  have hm : s.Move _ := .push hcall hphase
  by_cases hid : id = id'
  · subst hid
    have hplace : place = .nowhere := by
      by_contra hne
      obtain ⟨c, hc, hpushed⟩ := h.begun hne
      rw [hcall] at hc
      cases hc
      rw [hphase] at hpushed
      cases hpushed
    subst hplace
    have hzero : ((s.pending call.pid).live [] s.now).value.count id = 0 := by
      have hsub : ((s.pending call.pid).live [] s.now).value.Sublist (s.pending call.pid).value :=
        Expiring.live_sublist
      have hle := hsub.count_le id
      have hqueued := h.queued call.pid
      rw [if_neg (by simp)] at hqueued
      omega
    refine ⟨.queued call.pid, fun pid ↦ ?_, fun k ↦ ?_, ?_, fun _ ↦ ?_⟩
    · simp only [note_pending, setCall_pending, setPending_pending]
      by_cases hpid : pid = call.pid
      · rw [hpid, Function.update_self, Expiring.push_value, List.count_append, hzero,
          if_pos rfl, List.count_singleton_self]
      · rw [Function.update_of_ne hpid, h.queued pid]
        simp [Ne.symm hpid]
    · have hpolled := h.polled k
      simp only [reduceCtorEq, iff_false] at hpolled ⊢
      exact hpolled
    · exact (countP_concat rfl _).trans h.handed
    · exact ⟨_, Function.update_self .., rfl⟩
  · refine h.relist hm call.pid rfl ?_ (fun _ ↦ Iff.rfl) (countP_concat rfl _)
    rw [Expiring.push_value, List.count_append, List.count_singleton]
    simp [Ne.symm hid]

theorem At.pop {poll : NodePoll} {pid : Pid} {id' : RequestId} {rest : List RequestId}
    (h : s.At id place) (hpoll : s.poll k = some poll)
    (hready : poll.phase = .blocked ∨ poll.phase = .checking) (hactive : pid ∈ poll.active)
    (hlist : ((s.pending pid).live [] s.now).value = id' :: rest) :
    ∃ place', ((s.setPending pid ((s.pending pid).pop s.now)).setPoll k
        { poll with phase := .popped id' }).At id place' := by
  have hm : s.Move _ := .pop hpoll hready hactive hlist
  have hvalue : (s.pending pid).value = id' :: rest := by
    rcases Expiring.live_eq_or [] s.now (s.pending pid) with ⟨hlive, -⟩ | ⟨hlive, -⟩
    · rw [hlive] at hlist
      exact hlist
    · rw [hlive] at hlist
      cases hlist
  have hfree : ∀ poll', s.poll k = some poll' → poll'.phase ≠ .popped id := by
    intro poll' heq hphase
    rw [hpoll] at heq
    cases heq
    rcases hready with hready | hready
    · rw [hready] at hphase
      cases hphase
    · rw [hready] at hphase
      cases hphase
  by_cases hid : id = id'
  · subst hid
    have hqueued := h.queued pid
    rw [hvalue, List.count_cons_self] at hqueued
    have hplace : place = .queued pid := by
      by_contra hne
      rw [if_neg hne] at hqueued
      omega
    rw [if_pos hplace] at hqueued
    subst hplace
    refine ⟨.polled k, fun pid' ↦ ?_, fun k' ↦ ?_, h.handed, fun _ ↦ ?_⟩
    · simp only [setPoll_pending, setPending_pending]
      by_cases hpid : pid' = pid
      · rw [hpid, Function.update_self, Expiring.pop_value, hlist, List.tail_cons]
        simp only [reduceCtorEq, if_false]
        omega
      · rw [Function.update_of_ne hpid, h.queued pid']
        simp [Ne.symm hpid]
    · unfold PoppedBy
      show (∃ poll', Function.update s.poll k _ k' = some poll' ∧ _) ↔ _
      by_cases hk : k' = k
      · rw [hk, Function.update_self]
        simp
      · rw [Function.update_of_ne hk]
        have hpolled := h.polled k'
        unfold PoppedBy at hpolled
        rw [hpolled]
        simp [Ne.symm hk]
    · exact h.begun_move hm (by simp)
  · refine ⟨place, h.frame hm (fun pid' ↦ ?_) (fun k' ↦ ?_) rfl⟩
    · simp only [setPoll_pending, setPending_pending]
      by_cases hpid : pid' = pid
      · rw [hpid, Function.update_self, Expiring.pop_value, hlist, List.tail_cons, hvalue,
          List.count_cons_of_ne (Ne.symm hid)]
      · rw [Function.update_of_ne hpid]
    · exact poppedBy_update hfree (by simpa using Ne.symm hid) rfl

/-- A poll that ends loses the request that it has taken. -/
theorem At.endPoll {poll : NodePoll} (h : s.At id place) (hpoll : s.poll k = some poll) :
    ∃ place', (s.setPoll k { poll with phase := .done }).At id place' := by
  have hm : s.Move _ := .endPoll hpoll
  by_cases hplace : place = .polled k
  · subst hplace
    refine ⟨.nowhere, h.queued, fun k' ↦ ?_, h.handed, fun hne ↦ absurd rfl hne⟩
    simp only [reduceCtorEq, iff_false]
    rintro ⟨poll', heq, hphase⟩
    rw [setPoll_poll] at heq
    by_cases hk : k' = k
    · rw [hk, Function.update_self] at heq
      cases heq
      cases hphase
    · rw [Function.update_of_ne hk] at heq
      cases (h.polled k').mp ⟨poll', heq, hphase⟩
      exact hk rfl
  · refine ⟨place, h.frame hm (fun _ ↦ rfl) (fun k' ↦ ?_) rfl⟩
    refine poppedBy_update (fun poll' heq hphase ↦ ?_) (by simp) rfl
    exact hplace ((h.polled k).mp ⟨poll', heq, hphase⟩)

theorem At.hand {poll : NodePoll} {id' : RequestId} {request : StoredRequest} (h : s.At id place)
    (hpoll : s.poll k = some poll) (hphase : poll.phase = .popped id')
    (hread : ((s.request id').live none s.now).value = some request) :
    ∃ place', ((s.setPoll k { poll with phase := .done }).note
      (.handed k poll.nodeId id' request)).At id place' := by
  have hm : s.Move _ := .hand hpoll hphase hread
  by_cases hid : id = id'
  · subst hid
    have hplace : place = .polled k := (h.polled k).mp ⟨poll, hpoll, hphase⟩
    subst hplace
    refine ⟨.handed, fun pid ↦ ?_, fun k' ↦ ?_, ?_, fun _ ↦ h.begun_move hm (by simp)⟩
    · exact (h.queued pid).trans (by simp)
    · simp only [reduceCtorEq, iff_false]
      rintro ⟨poll', heq, hphase'⟩
      rw [note_poll, setPoll_poll] at heq
      by_cases hk : k' = k
      · rw [hk, Function.update_self] at heq
        cases heq
        cases hphase'
      · rw [Function.update_of_ne hk] at heq
        cases (h.polled k').mp ⟨poll', heq, hphase'⟩
        exact hk rfl
    · have hhanded := h.handed
      simp only [reduceCtorEq, if_false] at hhanded
      rw [note_log, setPoll_log, List.countP_append, hhanded, List.countP_singleton]
      simp [isHanded]
  · have hfree : ∀ poll', s.poll k = some poll' → poll'.phase ≠ .popped id := by
      intro poll' heq hphase'
      rw [hpoll] at heq
      cases heq
      rw [hphase] at hphase'
      cases hphase'
      exact hid rfl
    have hother : isHanded id (.handed k poll.nodeId id' request) = false :=
      decide_eq_false (Ne.symm hid)
    exact ⟨place, h.frame hm (fun _ ↦ rfl) (fun k' ↦ poppedBy_update hfree (by simp) rfl)
      (countP_concat hother _)⟩

/-- A step moves a request from one place to one other. -/
theorem At.move (h : s.At id place) (hm : s.Move s') : ∃ place', s'.At id place' := by
  have hframe := h.frame hm
  cases hm with
  | push hcall hphase => exact h.push hcall hphase
  | pushTtl hcall hphase =>
    exact h.relist (.pushTtl hcall hphase) _ rfl (by rw [Expiring.expire_value])
      (fun _ ↦ Iff.rfl) rfl
  | remove pid =>
    exact h.emptied (.remove pid) pid rfl List.count_nil (fun _ ↦ Iff.rfl) rfl
  | pop hpoll hready hactive hlist => exact h.pop hpoll hready hactive hlist
  | endPoll hpoll => exact h.endPoll hpoll
  | hand hpoll hphase hread => exact h.hand hpoll hphase hread
  | take | returnResponse | postQueued =>
    exact ⟨place, hframe (fun _ ↦ rfl) (fun _ ↦ Iff.rfl) (countP_concat rfl _)⟩
  | postServed =>
    refine ⟨place, hframe (fun _ ↦ rfl) (fun _ ↦ Iff.rfl) ?_⟩
    exact (countP_concat rfl _).trans (countP_concat rfl _)
  | beginPoll nodeId pids hnone =>
    refine ⟨place, hframe (fun _ ↦ rfl) (fun _ ↦ poppedBy_update ?_ (by simp) rfl)
      (countP_concat rfl _)⟩
    intro poll' heq
    rw [hnone] at heq
    cases heq
  | found host hpoll hphase =>
    refine ⟨place, hframe (fun _ ↦ rfl) (fun _ ↦ poppedBy_update ?_ (by rw [hphase]; simp) rfl)
      (countP_concat rfl _)⟩
    intro poll' heq
    rw [hpoll] at heq
    cases heq
    rw [hphase]
    simp
  | skip hpoll hphase =>
    refine ⟨place, hframe (fun _ ↦ rfl) (fun _ ↦ poppedBy_update ?_ (by rw [hphase]; simp) rfl)
      rfl⟩
    intro poll' heq
    rw [hpoll] at heq
    cases heq
    rw [hphase]
    simp
  | block hpoll hready =>
    refine ⟨place, hframe (fun _ ↦ rfl) (fun _ ↦ poppedBy_update ?_ (by simp) rfl) rfl⟩
    intro poll' heq
    rw [hpoll] at heq
    cases heq
    rcases hready with hready | hready
    · rw [hready]
      simp
    · rw [hready]
      simp
  | _ => exact ⟨place, hframe (fun _ ↦ rfl) (fun _ ↦ Iff.rfl) rfl⟩

theorem Placed.move (hp : s.Placed) (hm : s.Move s') : s'.Placed := fun id ↦
  (hp id).elim fun _ h ↦ h.move hm

theorem Placed.setHost (hp : s.Placed) (host : HostStore) : (s.setHost host).Placed := fun id ↦
  (hp id).imp fun _ h ↦ ⟨h.queued, h.polled, h.handed, h.begun⟩

/-- No request is handed out twice. -/
theorem Placed.handed_le (hp : s.Placed) (id : RequestId) : s.log.countP (isHanded id) ≤ 1 := by
  obtain ⟨place, h⟩ := hp id
  rw [h.handed]
  split
  · rfl
  · omega

end WebStore

end TandemAio
