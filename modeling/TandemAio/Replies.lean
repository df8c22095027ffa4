import TandemAio.Pairing
import TandemAio.Replicas

/-!
# A response goes to the call that it answers

The list of a request id holds the responses posted under it, the first at the head for as long as
it has not expired.
-/

open Reasoning

namespace TandemAio

theorem of_getElem?_concat {log : List WebEvent} {e e' : WebEvent} {i : Nat}
    (h : (log ++ [e])[i]? = some e') : log[i]? = some e' ∨ i = log.length ∧ e' = e := by
  rcases Nat.lt_trichotomy i log.length with hlt | rfl | hgt
  · rw [List.getElem?_append_left hlt] at h
    exact Or.inl h
  · rw [List.getElem?_concat_length] at h
    exact Or.inr ⟨rfl, (Option.some.inj h).symm⟩
  · have hlength : (log ++ [e]).length ≤ i := by
      rw [List.length_append, List.length_singleton]
      omega
    rw [List.getElem?_eq_none hlength] at h
    cases h

/-- At this position of the log a response was posted. -/
def Posted (log : List WebEvent) (id : RequestId) (p : Nat) (r : AppResponse) (t : Time) : Prop :=
  ∃ n, log[p]? = some (.posted id n r t)

/-- The first post under a request id. -/
def FirstPosted (log : List WebEvent) (id : RequestId) (q : Nat) (t : Time) : Prop :=
  (∃ r, Posted log id q r t) ∧ ∀ q' r' t', Posted log id q' r' t' → q ≤ q'

variable {s s' : WebStore} {id : RequestId} {p q : Nat} {r : AppResponse} {t : Time}

theorem Posted.length_lt {log : List WebEvent} (h : Posted log id p r t) : p < log.length := by
  obtain ⟨n, hp⟩ := h
  exact (List.getElem?_eq_some_iff.mp hp).1

theorem Posted.move (h : Posted s.log id p r t) (hm : s.Move s') : Posted s'.log id p r t :=
  h.imp fun _ hp ↦ hm.get_log hp

/-- A step posts a response: a call that waits takes it, or it goes to the end of the list. -/
structure Posts (s s' : WebStore) (id : RequestId) (p : Nat) (r : AppResponse) (c : Call) :
    Prop where
  position : p = s.log.length
  now : s'.now = s.now
  call : s.call id = some c
  reply : c.phase = .waiting ∧ s'.call id = some { c with phase := .served ⟨p, r⟩ } ∨
    c.phase ≠ .waiting ∧ s'.call = s.call ∧ s'.response id = (s.response id).push s.now ⟨p, r⟩

theorem WebStore.Move.now_le (hm : s.Move s') : s.now ≤ s'.now := by
  cases hm with
  | tick hle => exact hle
  | _ => exact le_rfl

/-- A post of the log after a step: it was there, or the step posts. -/
theorem WebStore.Move.posted (hm : s.Move s') (h : Posted s'.log id p r t) :
    Posted s.log id p r t ∨ t = s.now ∧ ∃ c, Posts s s' id p r c := by
  obtain ⟨n, hp⟩ := h
  cases hm with
  | postServed nodeId response hcall hphase =>
    rcases of_getElem?_concat hp with hp | ⟨-, hevent⟩
    · rcases of_getElem?_concat hp with hp | ⟨rfl, hevent⟩
      · exact Or.inl ⟨n, hp⟩
      · cases hevent
        exact Or.inr ⟨rfl, _, rfl, rfl, hcall, Or.inl ⟨hphase, Function.update_self ..⟩⟩
    · cases hevent
  | postQueued nodeId response hcall hphase =>
    rcases of_getElem?_concat hp with hp | ⟨rfl, hevent⟩
    · exact Or.inl ⟨n, hp⟩
    · cases hevent
      exact Or.inr ⟨rfl, _, rfl, rfl, hcall, Or.inr ⟨hphase, rfl, Function.update_self ..⟩⟩
  | push | take | returnResponse | beginPoll | found | hand =>
    rcases of_getElem?_concat hp with hp | ⟨-, hevent⟩
    · exact Or.inl ⟨n, hp⟩
    · cases hevent
  | _ => exact Or.inl ⟨n, hp⟩

/-- The first post after a step: it was the first before, or it is the first at all. -/
theorem FirstPosted.back (h : FirstPosted s'.log id q t) (hm : s.Move s') :
    FirstPosted s.log id q t ∨
      t = s.now ∧ (∃ r c, Posts s s' id q r c) ∧ ∀ p r t', ¬Posted s.log id p r t' := by
  obtain ⟨⟨r, hq⟩, hfirst⟩ := h
  rcases hm.posted hq with hold | ⟨rfl, c, hposts⟩
  · exact Or.inl ⟨⟨r, hold⟩, fun q' r' t' hq' ↦ hfirst q' r' t' (hq'.move hm)⟩
  · refine Or.inr ⟨rfl, ⟨r, c, hposts⟩, fun p r' t' hp ↦ ?_⟩
    have hle := hfirst p r' t' (hp.move hm)
    have hlt := hp.length_lt
    have hposition := hposts.position
    omega

/-- A post that is there already: the first one is not new. -/
theorem FirstPosted.back_of_posted (h : FirstPosted s'.log id q t) (hm : s.Move s') {t' : Time}
    (hp : Posted s.log id p r t') : FirstPosted s.log id q t := by
  rcases h.back hm with hold | ⟨-, -, hnone⟩
  · exact hold
  · exact absurd hp (hnone p r t')

/-- A response that was posted under the id and taken: it is the first one, or the first one has
been there for as long as a response is kept. -/
def Took (log : List WebEvent) (id : RequestId) (p : Nat) (r : AppResponse) : Prop :=
  ∃ t taken, Posted log id p r t ∧ .taken id p taken ∈ log ∧
    ∀ q t₀, FirstPosted log id q t₀ → q = p ∨ t₀ + serveRequestTtlSeconds ≤ taken

theorem Took.move (h : Took s.log id p r) (hm : s.Move s') : Took s'.log id p r := by
  obtain ⟨t, taken, hposted, htaken, hfirst⟩ := h
  exact ⟨t, taken, hposted.move hm, hm.mem_log htaken, fun q t₀ hq ↦
    hfirst q t₀ (hq.back_of_posted hm hposted)⟩

namespace WebStore

/-- The first response is at the head of its list, unless it has been there for as long as a
response is kept. -/
def Kept (s : WebStore) (id : RequestId) (phase : CallPhase) (q : Nat) (t : Time) : Prop :=
  t + serveRequestTtlSeconds ≤ s.now ∨
    phase ≠ .waiting ∧ ∃ r rest, (s.response id).value = ⟨q, r⟩ :: rest ∧
      ∀ e, (s.response id).expireAt = some e → t + serveRequestTtlSeconds ≤ e

structure Replied (s : WebStore) : Prop where
  time : ∀ id p r t, Posted s.log id p r t → t ≤ s.now
  called : ∀ id p r t, Posted s.log id p r t → ∃ c, s.call id = some c
  listed : ∀ id reply, reply ∈ (s.response id).value →
    ∃ t, Posted s.log id reply.post reply.response t
  empty : ∀ id, (s.response id).value = [] → (s.response id).expireAt = none
  first : ∀ id c, s.call id = some c → c.phase.isUnserved →
    ∀ q t, FirstPosted s.log id q t → s.Kept id c.phase q t
  served : ∀ id c reply, s.call id = some c → c.phase = .served reply →
    Took s.log id reply.post reply.response
  returned : ∀ id p r, .returned id p r ∈ s.log → Took s.log id p r

theorem Replied.initial (host : HostStore) : (WebStore.initial host).Replied where
  time := fun _ _ _ _ ⟨_, h⟩ ↦ by cases h
  called := fun _ _ _ _ ⟨_, h⟩ ↦ by cases h
  listed := fun _ _ h ↦ by cases h
  empty := fun _ _ ↦ rfl
  first := fun _ _ h ↦ by cases h
  served := fun _ _ _ h ↦ by cases h
  returned := fun _ _ _ h ↦ by cases h

/-! ## The list of a request id -/

/-- What a step does to the list: nothing, a pop, a post or a new time to expire. -/
theorem Move.response (hm : s.Move s') (id : RequestId) :
    s'.response id = s.response id ∨
      s'.response id = (s.response id).pop s.now ∨
      (∃ p r t, s'.response id = (s.response id).push s.now ⟨p, r⟩ ∧ Posted s'.log id p r t) ∨
      s'.response id = (s.response id).expire s.now serveRequestTtlSeconds := by
  cases hm with
  | take hcall hphase hcons =>
    rename_i id' call reply rest
    by_cases hid : id = id'
    · subst hid
      exact Or.inr (Or.inl (Function.update_self ..))
    · exact Or.inl (Function.update_of_ne hid _ _)
  | postQueued nodeId response hcall hphase =>
    rename_i id' call
    by_cases hid : id = id'
    · subst hid
      exact Or.inr (Or.inr (Or.inl ⟨_, response, s.now, Function.update_self .., nodeId,
        List.getElem?_concat_length⟩))
    · exact Or.inl (Function.update_of_ne hid _ _)
  | expire due =>
    rename_i id'
    by_cases hid : id = id'
    · subst hid
      exact Or.inr (Or.inr (Or.inr (Function.update_self ..)))
    · exact Or.inl (Function.update_of_ne hid _ _)
  | _ => exact Or.inl rfl

theorem Replied.listed_move (hr : s.Replied) (hm : s.Move s') {reply : Reply}
    (h : reply ∈ (s'.response id).value) :
    ∃ t, Posted s'.log id reply.post reply.response t := by
  have hback : reply ∈ (s.response id).value ∨
      ∃ t, Posted s'.log id reply.post reply.response t := by
    rcases hm.response id with heq | heq | ⟨p, r, t, heq, hposted⟩ | heq
    · rw [heq] at h
      exact Or.inl h
    · rw [heq, Expiring.pop_value] at h
      exact Or.inl (Expiring.live_sublist.mem (List.mem_of_mem_tail h))
    · rw [heq, Expiring.push_value, List.mem_append, List.mem_singleton] at h
      rcases h with h | rfl
      · exact Or.inl (Expiring.live_sublist.mem h)
      · exact Or.inr ⟨t, hposted⟩
    · rw [heq, Expiring.expire_value] at h
      exact Or.inl (Expiring.live_sublist.mem h)
  rcases hback with hold | hnew
  · obtain ⟨t, hposted⟩ := hr.listed id reply hold
    exact ⟨t, hposted.move hm⟩
  · exact hnew

theorem Replied.empty_move (hr : s.Replied) (hm : s.Move s')
    (h : (s'.response id).value = []) : (s'.response id).expireAt = none := by
  rcases hm.response id with heq | heq | ⟨p, r, t, heq, -⟩ | heq
  · rw [heq] at h ⊢
    exact hr.empty id h
  · rw [heq] at h ⊢
    exact Expiring.pop_expireAt h
  · rw [heq, Expiring.push_value] at h
    exact absurd h (by simp)
  · rw [heq] at h ⊢
    exact Expiring.expire_expireAt_nil h

/-! ## The first response is kept -/

/-- A call that a step leaves: another one, or the one that the step sets. -/
theorem call_of_update {id' : RequestId} {call c : Call}
    (h : Function.update s.call id' (some call) id = some c) :
    id ≠ id' ∧ s.call id = some c ∨ id = id' ∧ c = call := by
  by_cases hid : id = id'
  · subst hid
    rw [Function.update_self] at h
    cases h
    exact Or.inr ⟨rfl, rfl⟩
  · rw [Function.update_of_ne hid] at h
    exact Or.inl ⟨hid, h⟩

theorem Kept.frame {phase phase' : CallPhase} (h : s.Kept id phase q t)
    (hresponse : s'.response id = s.response id) (hnow : s.now ≤ s'.now)
    (hphase : phase' = .waiting → phase = .waiting) : s'.Kept id phase' q t := by
  rcases h with hold | ⟨hne, r, rest, hvalue, hexpire⟩
  · exact Or.inl (hold.trans hnow)
  · refine Or.inr ⟨fun h ↦ hne (hphase h), r, rest, ?_⟩
    rw [hresponse]
    exact ⟨hvalue, hexpire⟩

/-- What a command finds in the list. -/
theorem Kept.live {phase : CallPhase} (h : s.Kept id phase q t) :
    t + serveRequestTtlSeconds ≤ s.now ∨ phase ≠ .waiting ∧
      (s.response id).live [] s.now = s.response id ∧
      ∃ r rest, (s.response id).value = ⟨q, r⟩ :: rest := by
  rcases h with hold | ⟨hne, r, rest, hvalue, hexpire⟩
  · exact Or.inl hold
  · rcases Expiring.live_eq_or [] s.now (s.response id) with ⟨hlive, -⟩ | ⟨-, e, he, hle⟩
    · exact Or.inr ⟨hne, hlive, r, rest, hvalue⟩
    · exact Or.inl ((hexpire e he).trans hle)

theorem Kept.push {phase : CallPhase} (h : s.Kept id phase q t) (hnow : s'.now = s.now)
    {reply : Reply} (hresponse : s'.response id = (s.response id).push s.now reply) :
    s'.Kept id phase q t := by
  rcases h.live with hold | ⟨hne, hlive, r, rest, hvalue⟩
  · exact Or.inl (hold.trans hnow.ge)
  · rcases h with hold | ⟨-, -, -, -, hexpire⟩
    · exact Or.inl (hold.trans hnow.ge)
    · refine Or.inr ⟨hne, r, rest ++ [reply], ?_, ?_⟩
      · rw [hresponse, Expiring.push_value, hlive, hvalue]
        rfl
      · rw [hresponse, Expiring.push_expireAt, hlive]
        exact hexpire

theorem Kept.expire {phase : CallPhase} (h : s.Kept id phase q t) (ht : t ≤ s.now)
    (hnow : s'.now = s.now)
    (hresponse : s'.response id = (s.response id).expire s.now serveRequestTtlSeconds) :
    s'.Kept id phase q t := by
  rcases h.live with hold | ⟨hne, hlive, r, rest, hvalue⟩
  · exact Or.inl (hold.trans hnow.ge)
  · refine Or.inr ⟨hne, r, rest, ?_, fun e he ↦ ?_⟩
    · rw [hresponse, Expiring.expire_value, hlive, hvalue]
    · rw [hresponse] at he
      rw [Expiring.expire_expireAt he]
      exact Int.add_le_add_right ht _

/-- The first post of all: the list of the call held nothing before. -/
theorem Replied.first_post (hr : s.Replied) {c c' : Call} (hposts : Posts s s' id q r c)
    (hnone : ∀ p r t', ¬Posted s.log id p r t') (hc' : s'.call id = some c')
    (hunserved : c'.phase.isUnserved) : s'.Kept id c'.phase q s.now := by
  have hnil : (s.response id).value = [] := by
    apply List.eq_nil_iff_forall_not_mem.mpr
    intro reply hmem
    obtain ⟨t, hposted⟩ := hr.listed id reply hmem
    exact hnone _ _ _ hposted
  have hlive : (s.response id).live [] s.now = ⟨[], none⟩ := by
    rcases Expiring.live_eq_or [] s.now (s.response id) with ⟨hlive, -⟩ | ⟨hlive, -⟩
    · rw [hlive, ← hnil, ← hr.empty id hnil]
    · exact hlive
  rcases hposts.reply with ⟨-, hcall⟩ | ⟨hphase, hcall, hresponse⟩
  · rw [hc'] at hcall
    cases hcall
    cases hunserved
  · rw [hcall, hposts.call] at hc'
    cases hc'
    refine Or.inr ⟨hphase, r, [], ?_, fun e he ↦ ?_⟩
    · rw [hresponse, Expiring.push_value, hlive]
      rfl
    · rw [hresponse, Expiring.push_expireAt, hlive] at he
      cases he

theorem Replied.first_move (hr : s.Replied) (hm : s.Move s') {c' : Call}
    (hc' : s'.call id = some c') (hunserved : c'.phase.isUnserved)
    (hq : FirstPosted s'.log id q t) : s'.Kept id c'.phase q t := by
  rcases hq.back hm with hold | ⟨rfl, ⟨r, c, hposts⟩, hnone⟩
  · have hkept : ∀ c, s.call id = some c → c.phase.isUnserved → s.Kept id c.phase q t :=
      fun c hc hun ↦ hr.first id c hc hun q t hold
    obtain ⟨⟨r, hposted⟩, -⟩ := hold
    cases hm with
    | beginCall hnone hphase hpid =>
      rcases call_of_update hc' with ⟨-, hc⟩ | ⟨rfl, rfl⟩
      · exact (hkept c' hc hunserved).frame rfl le_rfl (fun h ↦ h)
      · obtain ⟨c, hc⟩ := hr.called id q r t hposted
        rw [hnone] at hc
        cases hc
    | store expireAt hcall hphase | storeTtl expireAt hcall hphase | push hcall hphase
    | pushTtl hcall hphase =>
      rcases call_of_update hc' with ⟨-, hc⟩ | ⟨rfl, rfl⟩
      · exact (hkept c' hc hunserved).frame rfl le_rfl (fun h ↦ h)
      · exact (hkept _ hcall (by rw [hphase]; rfl)).frame rfl le_rfl (fun h ↦ by cases h)
    | wait hcall hphase hnil =>
      rcases call_of_update hc' with ⟨-, hc⟩ | ⟨rfl, rfl⟩
      · exact (hkept c' hc hunserved).frame rfl le_rfl (fun h ↦ h)
      · rcases (hkept _ hcall (by rw [hphase]; rfl)).live with hold | ⟨-, hlive, r, rest, hvalue⟩
        · exact Or.inl hold
        · rw [hlive, hvalue] at hnil
          cases hnil
    | take hcall hphase hcons =>
      rcases call_of_update hc' with ⟨hid, hc⟩ | ⟨rfl, rfl⟩
      · exact (hkept c' hc hunserved).frame (Function.update_of_ne hid _ _) le_rfl (fun h ↦ h)
      · cases hunserved
    | timeOut hcall | returnResponse hcall | postServed nodeId response hcall =>
      rcases call_of_update hc' with ⟨-, hc⟩ | ⟨rfl, rfl⟩
      · exact (hkept c' hc hunserved).frame rfl le_rfl (fun h ↦ h)
      · cases hunserved
    | postQueued nodeId response hcall hphase =>
      rename_i id' call
      by_cases hid : id = id'
      · subst hid
        exact (hkept c' hc' hunserved).push rfl (Function.update_self ..)
      · exact (hkept c' hc' hunserved).frame (Function.update_of_ne hid _ _) le_rfl (fun h ↦ h)
    | expire due =>
      rename_i id'
      by_cases hid : id = id'
      · subst hid
        exact (hkept c' hc' hunserved).expire (hr.time id q r t hposted) rfl
          (Function.update_self ..)
      · exact (hkept c' hc' hunserved).frame (Function.update_of_ne hid _ _) le_rfl (fun h ↦ h)
    | tick hle => exact (hkept c' hc' hunserved).frame rfl hle (fun h ↦ h)
    | _ => exact (hkept c' hc' hunserved).frame rfl le_rfl (fun h ↦ h)
  · exact hr.first_post hposts hnone hc' hunserved

/-! ## What a call takes -/

theorem Replied.took (hr : s.Replied) {call : Call} {reply : Reply} {rest : List Reply}
    (hcall : s.call id = some call) (hphase : call.phase = .enqueued)
    (hcons : ((s.response id).live [] s.now).value = reply :: rest) (hm : s.Move s')
    (htaken : .taken id reply.post s.now ∈ s'.log) :
    Took s'.log id reply.post reply.response := by
  have hmem : reply ∈ ((s.response id).live [] s.now).value := by
    rw [hcons]
    exact List.mem_cons_self
  obtain ⟨t, hposted⟩ := hr.listed id reply (Expiring.live_sublist.mem hmem)
  refine ⟨t, s.now, hposted.move hm, htaken, fun q t₀ hq ↦ ?_⟩
  have hkept := hr.first id call hcall (by rw [hphase]; rfl) q t₀ (hq.back_of_posted hm hposted)
  rcases hkept.live with hold | ⟨-, hlive, r, rest', hvalue⟩
  · exact Or.inr hold
  · rw [hlive, hvalue] at hcons
    cases hcons
    exact Or.inl rfl

theorem Replied.took_post (hr : s.Replied) {call : Call} (nodeId : NodeId) (response : AppResponse)
    (hcall : s.call id = some call) (hphase : call.phase = .waiting) :
    Took ((s.log ++ [WebEvent.posted id nodeId response s.now]) ++
      [WebEvent.taken id s.log.length s.now]) id
      s.log.length response := by
  have hm : s.Move _ := .postServed nodeId response hcall hphase
  have hlength : s.log.length <
      (s.log ++ [WebEvent.posted id nodeId response s.now]).length := by
    rw [List.length_append, List.length_singleton]
    omega
  refine ⟨s.now, s.now, ⟨nodeId, ?_⟩, by simp, fun q t₀ hq ↦ ?_⟩
  · rw [List.getElem?_append_left hlength, List.getElem?_concat_length]
  · rcases FirstPosted.back hq hm with hold | ⟨-, ⟨r, c, hposts⟩, -⟩
    · rcases hr.first id call hcall (by rw [hphase]; rfl) q t₀ hold with hkept | ⟨hne, -⟩
      · exact Or.inr hkept
      · exact absurd hphase hne
    · exact Or.inl hposts.position

theorem Replied.served_move (hr : s.Replied) (hm : s.Move s') {c' : Call} {reply : Reply}
    (hc' : s'.call id = some c') (hserved : c'.phase = .served reply) :
    Took s'.log id reply.post reply.response := by
  have hold : ∀ c, s.call id = some c → c.phase = .served reply →
      Took s'.log id reply.post reply.response :=
    fun c hc hphase ↦ (hr.served id c reply hc hphase).move hm
  cases hm with
  | beginCall hnone hphase hpid =>
    rcases call_of_update hc' with ⟨-, hc⟩ | ⟨rfl, rfl⟩
    · exact hold c' hc hserved
    · rw [hphase] at hserved
      cases hserved
  | store | storeTtl | push | pushTtl | wait | timeOut | returnResponse =>
    rcases call_of_update hc' with ⟨-, hc⟩ | ⟨rfl, rfl⟩
    · exact hold c' hc hserved
    · cases hserved
  | take hcall hphase hcons =>
    rcases call_of_update hc' with ⟨-, hc⟩ | ⟨rfl, rfl⟩
    · exact hold c' hc hserved
    · cases hserved
      exact hr.took hcall hphase hcons (.take hcall hphase hcons)
        (List.mem_append_right _ List.mem_cons_self)
  | postServed nodeId response hcall hphase =>
    rcases call_of_update hc' with ⟨-, hc⟩ | ⟨rfl, rfl⟩
    · exact hold c' hc hserved
    · cases hserved
      exact hr.took_post nodeId response hcall hphase
  | _ => exact hold c' hc' hserved

theorem Move.returned (hm : s.Move s') (h : .returned id p r ∈ s'.log) :
    .returned id p r ∈ s.log ∨
      ∃ c, s.call id = some c ∧ c.phase = .served ⟨p, r⟩ := by
  cases hm with
  | returnResponse hcall hphase =>
    rcases List.mem_append.mp h with h | h
    · exact Or.inl h
    · cases List.mem_singleton.mp h
      exact Or.inr ⟨_, hcall, hphase⟩
  | postServed =>
    rcases List.mem_append.mp h with h | h
    · rcases List.mem_append.mp h with h | h
      · exact Or.inl h
      · cases List.mem_singleton.mp h
    · cases List.mem_singleton.mp h
  | push | take | beginPoll | found | hand | postQueued =>
    rcases List.mem_append.mp h with h | h
    · exact Or.inl h
    · cases List.mem_singleton.mp h
  | _ => exact Or.inl h

theorem Replied.move (hr : s.Replied) (hm : s.Move s') : s'.Replied where
  time := fun id p r t hp ↦ by
    rcases hm.posted hp with hold | ⟨rfl, c, hposts⟩
    · exact (hr.time id p r t hold).trans hm.now_le
    · exact hposts.now.ge
  called := fun id p r t hp ↦ by
    have hcall : ∃ c, s.call id = some c := by
      rcases hm.posted hp with hold | ⟨-, c, hposts⟩
      · exact hr.called id p r t hold
      · exact ⟨c, hposts.call⟩
    obtain ⟨c, hc⟩ := hcall
    obtain ⟨c', hc', -⟩ := hm.call hc
    exact ⟨c', hc'⟩
  listed := fun _ _ h ↦ hr.listed_move hm h
  empty := fun _ h ↦ hr.empty_move hm h
  first := fun _ _ hc hunserved _ _ hq ↦ hr.first_move hm hc hunserved hq
  served := fun _ _ _ hc hserved ↦ hr.served_move hm hc hserved
  returned := fun id p r h ↦ by
    rcases hm.returned h with hold | ⟨c, hc, hserved⟩
    · exact (hr.returned id p r hold).move hm
    · exact (hr.served id c _ hc hserved).move hm

theorem Replied.setHost (hr : s.Replied) (host : HostStore) : (s.setHost host).Replied :=
  ⟨hr.time, hr.called, hr.listed, hr.empty, hr.first, hr.served, hr.returned⟩

/-! ## A call returns once -/

def isReturned (id : RequestId) : WebEvent → Bool
  | .returned i _ _ => i = id
  | _ => false

/-- A call that has returned is done. -/
def ReturnedOnce (s : WebStore) : Prop :=
  ∀ id, s.log.countP (isReturned id) = 0 ∨
    s.log.countP (isReturned id) = 1 ∧ ∃ c, s.call id = some c ∧ c.phase = .done

theorem ReturnedOnce.move (h : s.ReturnedOnce) (hm : s.Move s') : s'.ReturnedOnce := by
  intro id
  have hkeep : s'.log.countP (isReturned id) = s.log.countP (isReturned id) →
      s'.log.countP (isReturned id) = 0 ∨
        s'.log.countP (isReturned id) = 1 ∧ ∃ c, s'.call id = some c ∧ c.phase = .done := by
    intro hcount
    rw [hcount]
    rcases h id with hzero | ⟨hone, c, hc, hdone⟩
    · exact Or.inl hzero
    · obtain ⟨c', hc', hcontinues⟩ := hm.call hc
      exact Or.inr ⟨hone, c', hc', hcontinues.done hdone⟩
  cases hm with
  | returnResponse hcall hphase =>
    rename_i id' call reply
    by_cases hid : id = id'
    · subst hid
      have hzero : s.log.countP (isReturned id) = 0 := by
        rcases h id with hzero | ⟨-, c, hc, hdone⟩
        · exact hzero
        · rw [hcall] at hc
          cases hc
          rw [hphase] at hdone
          cases hdone
      refine Or.inr ⟨?_, _, Function.update_self .., rfl⟩
      rw [note_log, setCall_log, List.countP_append, hzero, List.countP_singleton]
      simp [isReturned]
    · have hother : isReturned id (.returned id' reply.post reply.response) = false :=
        decide_eq_false (Ne.symm hid)
      exact hkeep (countP_concat hother _)
  | postServed => exact hkeep ((countP_concat rfl _).trans (countP_concat rfl _))
  | push | take | beginPoll | found | hand | postQueued => exact hkeep (countP_concat rfl _)
  | _ => exact hkeep rfl

end WebStore

/-! ## Runs -/

open WebStore

/-- What every move and every step of the hosting side keeps, a run keeps. -/
theorem WebRun.keeps [Sha256] {host : HostStore} {P : WebStore → Prop} (h : WebRun host s)
    (start : P (.initial host)) (move : ∀ {s s'}, P s → s.Move s' → P s')
    (setHost : ∀ {s} h, P s → P (s.setHost h)) : P s := by
  induction h with
  | start => exact start
  | act hrun hstep ih => exact move ih (WebStore.step_move hstep)
  | host hrun hstep ih =>
    unfold WebStore.hosted
    split
    · exact move (setHost _ ih) (.remove _)
    · exact setHost _ ih

def returnsPost (p : Nat) : WebEvent → Bool
  | .returned _ q _ => q = p
  | _ => false

/-- Requests and responses are paired. -/
structure Paired (log : List WebEvent) : Prop where
  /-- No request is handed out twice. -/
  handed_once : ∀ id, log.countP (isHanded id) ≤ 1
  handed_own : ∀ k n id r, .handed k n id r ∈ log → HandedOwn log k n id r
  returned_own : ∀ id p r, .returned id p r ∈ log → Took log id p r
  /-- No post is returned twice. -/
  returned_once : ∀ p, log.countP (returnsPost p) ≤ 1

/-- All returns of a post are by the call of its request. -/
theorem returnsPost_le {log : List WebEvent} (hcall : ∀ id, log.countP (isReturned id) ≤ 1)
    (hown : ∀ id p r, .returned id p r ∈ log → Took log id p r) (p : Nat) :
    log.countP (returnsPost p) ≤ 1 := by
  by_cases hany : ∃ id r, .returned id p r ∈ log
  · obtain ⟨id, r, hr⟩ := hany
    obtain ⟨t, -, ⟨n, hp⟩, -⟩ := hown id p r hr
    refine (List.countP_mono_left fun e he hpost ↦ ?_).trans (hcall id)
    cases e with
    | returned id' q r' =>
      have hq : q = p := of_decide_eq_true hpost
      subst hq
      obtain ⟨t', -, ⟨n', hp'⟩, -⟩ := hown id' q r' he
      rw [hp] at hp'
      cases hp'
      exact decide_eq_true rfl
    | _ => cases hpost
  · have hzero : log.countP (returnsPost p) = 0 := by
      apply List.countP_eq_zero.mpr
      intro e he hpost
      cases e with
      | returned id q r =>
        have hq : q = p := of_decide_eq_true hpost
        subst hq
        exact hany ⟨id, r, he⟩
      | _ => cases hpost
    omega

/-- Every interleaving pairs requests and responses. -/
theorem WebRun.paired [Sha256] {host : HostStore} (h : WebRun host s) : Paired s.log := by
  have hplaced : s.Placed := h.keeps (.initial host) .move fun host h ↦ h.setHost host
  have howned : s.Owned := h.keeps (.initial host) .move fun host h ↦ h.setHost host
  have hreplied : s.Replied := h.keeps (.initial host) .move fun host h ↦ h.setHost host
  have honce : s.ReturnedOnce := h.keeps (fun _ ↦ Or.inl rfl) .move fun _ h ↦ h
  have hcall : ∀ id, s.log.countP (isReturned id) ≤ 1 := fun id ↦ by
    rcases honce id with hzero | ⟨hone, -⟩
    · omega
    · omega
  exact ⟨hplaced.handed_le, howned.handed, hreplied.returned,
    returnsPost_le hcall hreplied.returned⟩

namespace Sample

/-- The node has taken the deployment from its queue and started the app. -/
def hosting : HostStore :=
  ((deployed.claimAssignment nodeB).takeAnswer nodeB).appStarted nodeB web

def call : RequestId := ⟨"call", by decide⟩

def page (status : Int) : AppResponse := ⟨status, [], []⟩

/-- A call whose request is handed to the node. -/
def handing : List WebAction :=
  [.beginPoll 0 nodeB [web], .checkPid 0, .beginCall call web ⟨"GET", "", [], [], []⟩,
    .enqueueCommand call, .enqueueCommand call, .enqueueCommand call, .popPending 0,
    .readRequest 0, .enqueueCommand call]

/-- The call waits, and the node answers. -/
def answering : List WebAction :=
  handing ++ [.awaitResponse call, .post nodeB call (page 200), .expireResponse call,
    .returnResponse call]

/-- The call waits only after the first response has expired. -/
def expiring : List WebAction :=
  handing ++ [.post nodeB call (page 200), .expireResponse call, .tick serveRequestTtlSeconds,
    .post nodeB call (page 500), .awaitResponse call, .returnResponse call]

def logAfter (actions : List WebAction) : List WebEvent :=
  (((WebStore.initial hosting).steps actions).map (·.log)).getD []

theorem hosting_run : HostRun (fun _ _ ↦ True) (.initial server) hosting := by
  refine .step (.step (.step (.step (.step (.step .start trivial
    (computed_step (a := .tick second) rfl)) trivial (computed_step (a := join nodeB keyB none) ?_))
    trivial (.deploy oneHost_unused)) trivial .claim) trivial .receive) trivial (.started ?_)
  · decide +kernel
  · decide +kernel

theorem logAfter_run (actions : List WebAction)
    (h : ((WebStore.initial hosting).steps actions).isSome = true) :
    ∃ s, WebRun hosting s ∧ s.log = logAfter actions := by
  obtain ⟨s, hs⟩ := Option.isSome_iff_exists.mp h
  refine ⟨s, WebRun.start.steps hs, ?_⟩
  unfold logAfter
  rw [hs]
  rfl

end Sample

open Sample in
theorem paired_answered :
    .returned call 4 (page 200) ∈ logAfter answering ∧ Paired (logAfter answering) := by
  obtain ⟨s, hrun, hlog⟩ := logAfter_run answering (by decide +kernel)
  rw [← hlog]
  refine ⟨?_, hrun.paired⟩
  rw [hlog]
  decide +kernel

open Sample in
/-- A call that comes to wait after the first response has expired returns the second. -/
theorem expired_response_skipped :
    ¬∀ host s, HostRun (fun _ _ ↦ True) (.initial server) host → WebRun host s →
      ∀ id p r, .returned id p r ∈ s.log → ∃ t, FirstPosted s.log id p t := by
  intro h
  obtain ⟨s, hrun, hlog⟩ := logAfter_run expiring (by decide +kernel)
  have hreturned : .returned call 5 (page 500) ∈ s.log := by
    rw [hlog]
    decide +kernel
  have hfirst : Posted s.log call 4 (page 200) 0 := by
    refine ⟨nodeB, ?_⟩
    rw [hlog]
    decide +kernel
  obtain ⟨t, -, hle⟩ := h hosting s hosting_run hrun call 5 (page 500) hreturned
  exact absurd (hle 4 (page 200) 0 hfirst) (by decide)

end TandemAio
