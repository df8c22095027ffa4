import TandemAio.Sessions

/-!
# `app/blueprints/auth.py`: the limit on logins

The counter a login is charged to, and what the counters promise about the logins of one peer.
-/

open Reasoning

namespace TandemAio

/-- A `/login` request. Repeated `X-Forwarded-For` fields arrive as one, joined with commas. -/
structure LoginRequest where
  /-- `REMOTE_ADDR`. The address behind a proxy is put here only if the header is present. -/
  remoteAddr : Option String
  forwardedFor : Option String
  username : String
  password : String
  draws : AuthDraws

namespace LoginRequest

/-- `request.remote_addr or "unknown"` -/
def remoteAddrOrUnknown (r : LoginRequest) : String :=
  match r.remoteAddr with
  | none | some "" => "unknown"
  | some address => address

/-- `request.headers.get("X-Forwarded-For", request.remote_addr or "unknown").split(",")[0]` -/
def ip (r : LoginRequest) : String :=
  String.ofList ((r.forwardedFor.getD r.remoteAddrOrUnknown).toList.takeWhile (· ≠ ','))

/-- The counter the request is charged to. -/
def key (r : LoginRequest) : String := rateLimitKey "login" r.ip

end LoginRequest

/-! ## The counter -/

namespace AuthState

variable {s : AuthState} {endpoint ip key : String}

/-- What the counter of a request stands at after it has been charged. -/
theorem checkRateLimit_count : (s.checkRateLimit endpoint ip).1 =
      decide ((s.get (rateLimitKey endpoint ip)).getD 0 + 1 ≤ rateLimitMaxAttempts) ∧
    ((s.checkRateLimit endpoint ip).2.redis (rateLimitKey endpoint ip)).value =
      some ((s.get (rateLimitKey endpoint ip)).getD 0 + 1) := by
  refine ⟨rfl, ?_⟩
  have hincr : ((s.incr (rateLimitKey endpoint ip)).2.redis (rateLimitKey endpoint ip)).value =
      some ((s.get (rateLimitKey endpoint ip)).getD 0 + 1) := by
    unfold incr
    dsimp only
    rw [put_redis_self]
    rfl
  unfold checkRateLimit
  dsimp only
  split
  · rw [expire, put_redis_self]
    exact hincr
  · exact hincr

theorem checkRateLimit_redis_ne (hne : key ≠ rateLimitKey endpoint ip) :
    (s.checkRateLimit endpoint ip).2.redis key = s.redis key := by
  obtain ⟨entry, hput⟩ := @checkRateLimit_spec s endpoint ip
  rw [hput, put_redis_ne hne]

/-- A login writes no counter after the check. -/
theorem login_redis_rateLimitKey {check : PasswordCheck} {username password endpoint' ip' : String}
    {draws : AuthDraws} :
    (s.login check ip username password draws).2.redis (rateLimitKey endpoint' ip') =
      (s.checkRateLimit "login" ip).2.redis (rateLimitKey endpoint' ip') := by
  rcases @loginState check s ip username password draws with
    ⟨status, message, hlogin⟩ | ⟨user, issued, accounts, hissued, hlogin, -⟩
  · rw [hlogin]
  · have hne : rateLimitKey endpoint' ip' ≠ sessionKey user.id draws.refreshJti :=
      sessionKey_ne_rateLimitKey.symm
    have htokens : ∀ s₁ : AuthState, ((s₁.issueAccessToken user draws.accessJti).2.issueRefreshToken
        user draws.refreshJti draws.elapsed).2.redis (rateLimitKey endpoint' ip') =
        s₁.redis (rateLimitKey endpoint' ip') := by
      intro s₁
      show (AuthState.setex _ _ _).redis _ = _
      rw [setex, put_redis_ne hne]
      rfl
    rw [hlogin, hissued]
    exact htokens _

/-- A counter that has not expired holds what was written to it. -/
theorem value_of_get {n : Nat} (h : s.get key = some n) : (s.redis key).value = some n := by
  unfold get at h
  rcases Expiring.live_eq_or none s.clock (s.redis key) with ⟨hlive, -⟩ | ⟨hlive, -⟩
  · rw [hlive] at h
    exact h
  · rw [hlive] at h
    cases h

end AuthState

/-! ## Runs of logins -/

/-- A login and the state it finds. -/
structure LoginAttempt where
  before : AuthState
  request : LoginRequest

namespace LoginAttempt

def time (a : LoginAttempt) : Time := a.before.clock

/-- The request passes `_check_rate_limit`. -/
def passes (a : LoginAttempt) : Bool := (a.before.checkRateLimit "login" a.request.ip).1

/-- The request finds its counter absent or expired, and starts a new window. -/
def opens (a : LoginAttempt) : Bool := (a.before.get a.request.key).isNone

def after (check : PasswordCheck) (a : LoginAttempt) : AuthState :=
  (a.before.login check a.request.ip a.request.username a.request.password a.request.draws).2

/-- A request of the peer in the 60 seconds from a moment. -/
def within (peer : Option String) (start : Time) (a : LoginAttempt) : Bool :=
  a.request.remoteAddr = peer ∧ start ≤ a.time ∧ a.time ≤ start + rateLimitWindowSeconds

/-- The earlier request is of the same peer, at most 60 seconds apart. -/
def recent (a earlier : LoginAttempt) : Bool :=
  earlier.request.remoteAddr = a.request.remoteAddr ∧
    earlier.time ≤ a.time + rateLimitWindowSeconds ∧ a.time ≤ earlier.time + rateLimitWindowSeconds

end LoginAttempt

/-- Logins one after the other, each some time after the one before it. -/
inductive LoginRun (check : PasswordCheck) : List LoginAttempt → AuthState → Prop
  | start (s) : LoginRun check [] s
  | step {tr s} (elapsed : Time) (r : LoginRequest) : LoginRun check tr s → 0 ≤ elapsed →
      LoginRun check (tr ++ [⟨s.wait elapsed, r⟩]) (LoginAttempt.after check ⟨s.wait elapsed, r⟩)

/-- All the recent requests of the peer, if they use up the limit, were charged to the counter this
one is charged to, since it was last opened. -/
def OneWindow (before : List LoginAttempt) (a : LoginAttempt) : Prop :=
  rateLimitMaxAttempts ≤ before.countP a.recent →
    ∀ tr₁ earlier tr₂, before = tr₁ ++ earlier :: tr₂ → a.recent earlier →
      earlier.request.key = a.request.key ∧
        ∀ b ∈ tr₂ ++ [a], b.request.key = a.request.key → b.opens = false

namespace LoginRun

variable {check : PasswordCheck} {tr : List LoginAttempt} {s : AuthState}

/-- A counter stands at the number of requests charged to it since it was opened, or higher. -/
theorem count_le (h : LoginRun check tr s) {r : LoginRequest} {tr₁ tr₂ : List LoginAttempt}
    (htr : tr = tr₁ ++ tr₂) (hopen : ∀ b ∈ tr₂.tail, b.request.key = r.key → b.opens = false) :
    tr₂.countP (·.request.key = r.key) ≤ (s.redis r.key).value.getD 0 := by
  induction h generalizing tr₁ tr₂ with
  | start =>
    obtain ⟨-, rfl⟩ := List.append_eq_nil_iff.mp htr.symm
    exact Nat.zero_le _
  | @step tr s elapsed r' hrun helapsed ih =>
    rcases List.eq_nil_or_concat tr₂ with rfl | ⟨tr₂', a, rfl⟩
    · exact Nat.zero_le _
    rw [List.concat_eq_append, ← List.append_assoc] at htr
    obtain ⟨htr', ha⟩ := List.append_inj' htr rfl
    obtain rfl := (List.cons.inj ha).1
    rw [List.concat_eq_append] at hopen ⊢
    have hbefore : tr₂'.countP (·.request.key = r.key) ≤ (s.redis r.key).value.getD 0 := by
      refine ih htr' fun b hb ↦ hopen b ?_
      cases tr₂' with
      | nil => cases hb
      | cons _ _ => exact List.mem_append_left _ hb
    have hafter : (LoginAttempt.after check ⟨s.wait elapsed, r'⟩).redis r.key =
        ((s.wait elapsed).checkRateLimit "login" r'.ip).2.redis r.key :=
      AuthState.login_redis_rateLimitKey
    rw [List.countP_append, List.countP_singleton, hafter]
    by_cases hkey : r'.key = r.key
    · -- the request is charged to the counter
      have hcount := (@AuthState.checkRateLimit_count (s.wait elapsed) "login" r'.ip).2
      rw [show rateLimitKey "login" r'.ip = r.key from hkey] at hcount
      have hbelow : tr₂'.countP (·.request.key = r.key) ≤
          ((s.wait elapsed).get r.key).getD 0 := by
        cases tr₂' with
        | nil => exact Nat.zero_le _
        | cons b bs =>
          have hlast : ((s.wait elapsed).get r'.key).isNone = false :=
            hopen ⟨s.wait elapsed, r'⟩ (List.mem_append_right bs (List.mem_singleton_self _)) hkey
          obtain ⟨n, hn⟩ := Option.isSome_iff_exists.mp (Option.isNone_eq_false_iff.mp hlast)
          have hvalue : ((s.wait elapsed).redis r'.key).value = some n :=
            AuthState.value_of_get hn
          rw [AuthState.wait_redis] at hvalue
          rw [hkey] at hn hvalue
          rw [hvalue] at hbefore
          rw [hn]
          exact hbefore
      rw [hcount, Option.getD_some, if_pos (by simpa using hkey)]
      exact Nat.add_le_add_right hbelow 1
    · have hsame := @AuthState.checkRateLimit_redis_ne (s.wait elapsed) "login" r'.ip r.key
        (Ne.symm hkey)
      rw [hsame, if_neg (by simpa using hkey)]
      exact hbefore

/-- A request that finds the limit used up in its own window does not pass. -/
theorem not_passes (h : LoginRun check tr s) {elapsed : Time} {r : LoginRequest}
    (hone : OneWindow tr ⟨s.wait elapsed, r⟩)
    (hmany : rateLimitMaxAttempts ≤ tr.countP (LoginAttempt.recent ⟨s.wait elapsed, r⟩)) :
    LoginAttempt.passes ⟨s.wait elapsed, r⟩ = false := by
  have hwindow := hone hmany
  -- the first of the recent requests
  have hfirst : ∃ tr₁ earlier tr₂, tr = tr₁ ++ earlier :: tr₂ ∧
      LoginAttempt.recent ⟨s.wait elapsed, r⟩ earlier = true ∧
      ∀ b ∈ tr₁, ¬ LoginAttempt.recent ⟨s.wait elapsed, r⟩ b = true := by
    rw [List.countP_eq_length_filter] at hmany
    cases hfilter : tr.filter (LoginAttempt.recent ⟨s.wait elapsed, r⟩) with
    | nil =>
      rw [hfilter] at hmany
      cases hmany
    | cons earlier rest =>
      obtain ⟨tr₁, tr₂, htr, hbefore, hearlier, -⟩ := List.filter_eq_cons_iff.mp hfilter
      exact ⟨tr₁, earlier, tr₂, htr, hearlier, hbefore⟩
  obtain ⟨tr₁, earlier, tr₂, htr, hearlier, hbefore⟩ := hfirst
  obtain ⟨hkey, hopen⟩ := hwindow tr₁ earlier tr₂ htr hearlier
  have hcharged : rateLimitMaxAttempts ≤ (earlier :: tr₂).countP (·.request.key = r.key) := by
    have hnone : tr₁.countP (LoginAttempt.recent ⟨s.wait elapsed, r⟩) = 0 :=
      List.countP_eq_zero.mpr hbefore
    rw [htr, List.countP_append, hnone, Nat.zero_add] at hmany
    refine le_trans hmany (List.countP_mono_left fun b hb hrecent ↦ ?_)
    obtain ⟨l₁, l₂, hsplit⟩ := List.append_of_mem hb
    have hall : tr = (tr₁ ++ l₁) ++ b :: l₂ := by rw [htr, hsplit, List.append_assoc]
    exact decide_eq_true (hwindow (tr₁ ++ l₁) b l₂ hall hrecent).1
  have hcount := h.count_le (r := r) htr fun b hb ↦ hopen b (List.mem_append_left _ hb)
  have hlive := hopen ⟨s.wait elapsed, r⟩ (List.mem_append_right _ (List.mem_singleton_self _)) rfl
  obtain ⟨n, hn⟩ := Option.isSome_iff_exists.mp (Option.isNone_eq_false_iff.mp hlive)
  have hvalue : ((s.wait elapsed).redis r.key).value = some n := AuthState.value_of_get hn
  rw [AuthState.wait_redis] at hvalue
  rw [hvalue, Option.getD_some] at hcount
  rw [LoginAttempt.passes, AuthState.checkRateLimit_count.1]
  have hn' : (s.wait elapsed).get (rateLimitKey "login" r.ip) = some n := hn
  rw [hn', Option.getD_some, decide_eq_false_iff_not]
  omega

end LoginRun

/-- At most five logins of a peer pass in any 60 seconds of a run in which its requests are charged
to one counter and one window. -/
theorem login_attempts_bounded {check : PasswordCheck} {tr : List LoginAttempt} {s : AuthState}
    (h : LoginRun check tr s)
    (hone : ∀ before a rest, tr = before ++ a :: rest → OneWindow before a)
    (peer : Option String) (start : Time) :
    tr.countP (fun a ↦ a.within peer start && a.passes) ≤ rateLimitMaxAttempts := by
  induction h with
  | start => exact Nat.zero_le _
  | @step tr s elapsed r hrun helapsed ih =>
    have hbefore := ih fun before a rest htr ↦
      hone before a (rest ++ [⟨s.wait elapsed, r⟩]) (by rw [htr]; simp)
    have hlast : OneWindow tr ⟨s.wait elapsed, r⟩ := hone tr ⟨s.wait elapsed, r⟩ [] rfl
    rw [List.countP_append, List.countP_singleton]
    split
    · rename_i hin
      obtain ⟨hwithin, hpasses⟩ := Bool.and_eq_true_iff.mp hin
      -- fewer than five requests of the peer came in this time
      have hfew : tr.countP (LoginAttempt.recent ⟨s.wait elapsed, r⟩) < rateLimitMaxAttempts := by
        by_contra hmany
        rw [hrun.not_passes hlast (not_lt.mp hmany)] at hpasses
        cases hpasses
      have hrecent : tr.countP (fun a ↦ a.within peer start && a.passes) ≤
          tr.countP (LoginAttempt.recent ⟨s.wait elapsed, r⟩) := by
        refine List.countP_mono_left fun b hb hb' ↦ ?_
        have hb'' := (Bool.and_eq_true_iff.mp hb').1
        unfold LoginAttempt.within at hwithin hb''
        unfold LoginAttempt.recent
        simp only [decide_eq_true_eq] at hwithin hb'' ⊢
        obtain ⟨hpeer, hlow, hhigh⟩ := hwithin
        obtain ⟨hpeer', hlow', hhigh'⟩ := hb''
        exact ⟨hpeer'.trans hpeer.symm, le_trans hhigh' (Int.add_le_add_right hlow _),
          le_trans hhigh (Int.add_le_add_right hlow' _)⟩
      omega
    · exact hbefore

/-! ## Lists of logins -/

/-- The attempts of some requests, each with the time since the one before it. -/
def loginAttempts (check : PasswordCheck) (s : AuthState) :
    List (Time × LoginRequest) → List LoginAttempt
  | [] => []
  | (elapsed, r) :: rest =>
    ⟨s.wait elapsed, r⟩ ::
      loginAttempts check (LoginAttempt.after check ⟨s.wait elapsed, r⟩) rest

theorem LoginRun.loginAttempts {check : PasswordCheck} {tr : List LoginAttempt} {s : AuthState}
    (h : LoginRun check tr s) {requests : List (Time × LoginRequest)}
    (helapsed : ∀ p ∈ requests, 0 ≤ p.1) :
    ∃ s', LoginRun check (tr ++ loginAttempts check s requests) s' := by
  induction requests generalizing tr s with
  | nil => exact ⟨s, by rw [TandemAio.loginAttempts, List.append_nil]; exact h⟩
  | cons p requests ih =>
    obtain ⟨elapsed, r⟩ := p
    have hstep := h.step elapsed r (helapsed _ List.mem_cons_self)
    obtain ⟨s', hs'⟩ := ih hstep fun p hp ↦ helapsed p (List.mem_cons_of_mem _ hp)
    rw [List.append_assoc] at hs'
    exact ⟨s', hs'⟩

/-- One counter, and no window but the first. -/
theorem OneWindow.of_run {tr : List LoginAttempt} {key : String}
    (hkey : ∀ a ∈ tr, a.request.key = key) (hopen : ∀ a ∈ tr.tail, a.opens = false)
    {before rest : List LoginAttempt} {a : LoginAttempt} (htr : tr = before ++ a :: rest) :
    OneWindow before a := by
  intro _ tr₁ earlier tr₂ hbefore _
  have hin : ∀ b ∈ tr₂ ++ [a], b ∈ tr.tail := by
    intro b hb
    have hlater : b ∈ tr₂ ++ a :: rest := by
      rcases List.mem_append.mp hb with hb | hb
      · exact List.mem_append_left _ hb
      · exact List.mem_append_right _ (List.mem_singleton.mp hb ▸ List.mem_cons_self)
    rw [htr, hbefore]
    cases tr₁ with
    | nil => exact hlater
    | cons b₁ bs =>
      show b ∈ (bs ++ earlier :: tr₂) ++ a :: rest
      rw [List.append_assoc]
      exact List.mem_append_right _ (List.mem_cons_of_mem _ hlater)
  have hmem : ∀ b, b ∈ before ∨ b = a → b ∈ tr := by
    rintro b (hb | rfl)
    · exact htr ▸ List.mem_append_left _ hb
    · exact htr ▸ List.mem_append_right _ List.mem_cons_self
  refine ⟨?_, fun b hb _ ↦ hopen b (hin b hb)⟩
  rw [hkey earlier (hmem _ (.inl (hbefore ▸ List.mem_append_right _ List.mem_cons_self))),
    hkey a (hmem _ (.inr rfl))]

namespace Sample

def peer : Option String := some "203.0.113.7"

/-- A login with a wrong password. -/
def guess (forwardedFor : Option String) : LoginRequest where
  remoteAddr := peer
  forwardedFor := forwardedFor
  username := "ann"
  password := "guess"
  draws := draws

def guesses (requests : List (Time × Option String)) : List LoginAttempt :=
  loginAttempts acceptPassword (authState 7) (requests.map fun p ↦ (p.1, guess p.2))

/-- Six logins, one a second. -/
def patient : List (Time × Option String) := List.replicate 6 (second, none)

/-- Six logins at once, each forwarded for somebody else. -/
def forwarded : List (Time × Option String) :=
  ["1", "2", "3", "4", "5", "6"].map fun address ↦ (0, some address)

/-- One login, four 59 seconds later, and five in the next second. -/
def straddling : List (Time × Option String) :=
  (0, none) :: (59 * second, none) :: List.replicate 3 (0, none) ++
    (second, none) :: List.replicate 4 (0, none)

theorem guesses_run {requests : List (Time × Option String)} (h : ∀ p ∈ requests, 0 ≤ p.1) :
    ∃ s, LoginRun acceptPassword (guesses requests) s := by
  refine (LoginRun.start (authState 7)).loginAttempts fun p hp ↦ ?_
  obtain ⟨q, hq, rfl⟩ := List.mem_map.mp hp
  exact h q hq

end Sample

/-- The sixth login of a window does not pass. -/
theorem login_attempts_bounded_six :
    (Sample.guesses Sample.patient).map (·.passes) = [true, true, true, true, true, false] ∧
    (Sample.guesses Sample.patient).countP (fun a ↦ a.within Sample.peer 0 && a.passes) ≤
      rateLimitMaxAttempts := by
  have hfacts : (Sample.guesses Sample.patient).map (·.passes) =
        [true, true, true, true, true, false] ∧
      ((Sample.guesses Sample.patient).all fun a ↦
        a.request.key = "ratelimit:login:203.0.113.7") = true ∧
      ((Sample.guesses Sample.patient).tail.all fun a ↦ a.opens = false) = true := by
    decide +kernel
  obtain ⟨hpasses, hkey, hopen⟩ := hfacts
  obtain ⟨s', hrun⟩ := Sample.guesses_run (show ∀ p ∈ Sample.patient, 0 ≤ p.1 by decide +kernel)
  have hkey' : ∀ b ∈ Sample.guesses Sample.patient,
      b.request.key = "ratelimit:login:203.0.113.7" := fun b hb ↦
    of_decide_eq_true (List.all_eq_true.mp hkey b hb)
  have hopen' : ∀ b ∈ (Sample.guesses Sample.patient).tail, b.opens = false := fun b hb ↦
    of_decide_eq_true (List.all_eq_true.mp hopen b hb)
  exact ⟨hpasses, login_attempts_bounded hrun
    (fun before a rest htr ↦ OneWindow.of_run hkey' hopen' htr) Sample.peer 0⟩

/-- A header that the client sends chooses the counter; and a window that ends makes room for five
more. -/
theorem login_limit_exceeded :
    (∃ tr s, LoginRun Sample.acceptPassword tr s ∧
      tr.countP (fun a ↦ a.within Sample.peer 0 && a.passes) = 6) ∧
    ∃ tr s, LoginRun Sample.acceptPassword tr s ∧ (∀ a ∈ tr, a.request.forwardedFor = none) ∧
      tr.countP (fun a ↦ a.within Sample.peer (59 * second) && a.passes) = 9 := by
  have hcounts : (Sample.guesses Sample.forwarded).countP
        (fun a ↦ a.within Sample.peer 0 && a.passes) = 6 ∧
      ((Sample.guesses Sample.straddling).all fun a ↦ a.request.forwardedFor = none) = true ∧
      (Sample.guesses Sample.straddling).countP
        (fun a ↦ a.within Sample.peer (59 * second) && a.passes) = 9 := by
    decide +kernel
  obtain ⟨s₁, hforwarded⟩ := Sample.guesses_run
    (show ∀ p ∈ Sample.forwarded, 0 ≤ p.1 by decide +kernel)
  obtain ⟨s₂, hstraddling⟩ := Sample.guesses_run
    (show ∀ p ∈ Sample.straddling, 0 ≤ p.1 by decide +kernel)
  refine ⟨⟨_, s₁, hforwarded, hcounts.1⟩, _, s₂, hstraddling, fun a ha ↦ ?_, hcounts.2.2⟩
  exact of_decide_eq_true (List.all_eq_true.mp hcounts.2.1 a ha)

end TandemAio
