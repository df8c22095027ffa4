import Mathlib
import TandemAio.Sessions

/-!
# `app/blueprints/auth.py`: access tokens

What `require_jwt` lets pass.  An access token is never looked up: it passes until it expires, and
only the sessions behind the refresh tokens are revoked.
-/

open Reasoning

namespace TandemAio

namespace AuthState

/-- `require_jwt`: the user of the request, or the error of its 401.  Without a `Bearer` header the
token is `none`. -/
def requireJwt (s : AuthState) (bearer : Option Jwt) : Except String User :=
  match bearer with
  | none => .error "Missing or malformed Authorization header"
  | some jwt =>
    match jwtDecode s.clock true jwt with
    | .error .expiredSignature => .error "Access token has expired"
    | .error .invalidToken => .error "Invalid access token"
    | .ok payload =>
      if payload.type ≠ .access then .error "Token is not an access token"
      else
        match s.accounts.users.find? (·.id = payload.sub) with
        | none => .error "User not found"
        | some user => .ok user

/-- The event signs a refresh token for the user. -/
def OpensSession (check : PasswordCheck) (s : AuthState) (e : AuthEvent) (userId : Int) : Prop :=
  ∃ p ∈ (e.run check s).2.signed, p ∉ s.signed ∧ p.type = .refresh ∧ p.sub = userId

/-- No access token is good for longer than from now on. -/
def AccessEnds (s : AuthState) : Prop :=
  ∀ p ∈ s.signed, p.type = .access → p.exp * second ≤ s.clock + accessTokenTtlSeconds

/-- The user has no session, and the access tokens of the user end by the time. -/
structure SignedOut (s : AuthState) (userId : Int) (by_ : Time) : Prop where
  access : ∀ p ∈ s.signed, p.type = .access → p.sub = userId → p.exp * second ≤ by_
  sessions : ∀ p ∈ s.signed, p.type = .refresh → p.sub = userId →
    s.get (sessionKey userId p.jti) = none

section Access

variable {check : PasswordCheck} {s s' : AuthState} {e : AuthEvent} {p : JwtPayload} {user : User}
  {userId : Int} {by_ : Time} {jwt : Jwt}

theorem requireJwt_eq_ok : s.requireJwt (some jwt) = .ok user ↔
    ∃ p, jwt = .signed p ∧ p.iat * second ≤ s.clock ∧ s.clock < p.exp * second ∧
      p.type = .access ∧ s.accounts.users.find? (·.id = p.sub) = some user := by
  unfold requireJwt
  dsimp only
  cases hdecode : jwtDecode s.clock true jwt with
  | error error =>
    have hno : ¬ ∃ p, jwt = .signed p ∧ p.iat * second ≤ s.clock ∧ s.clock < p.exp * second ∧
        p.type = .access ∧ s.accounts.users.find? (·.id = p.sub) = some user := by
      rintro ⟨p, hp, hiat, hexp, -⟩
      rw [jwtDecode_eq_ok.mpr ⟨hp, hiat, fun _ ↦ hexp⟩] at hdecode
      cases hdecode
    cases error <;> simp [hno]
  | ok payload =>
    obtain ⟨hsigned, hiat, hexp⟩ := jwtDecode_eq_ok.mp hdecode
    have hiff : (∃ p, jwt = .signed p ∧ p.iat * second ≤ s.clock ∧ s.clock < p.exp * second ∧
        p.type = .access ∧ s.accounts.users.find? (·.id = p.sub) = some user) ↔
        payload.type = .access ∧
          s.accounts.users.find? (·.id = payload.sub) = some user := by
      constructor
      · rintro ⟨p, hp, -, -, htype, huser⟩
        rw [hsigned] at hp
        cases hp
        exact ⟨htype, huser⟩
      · exact fun h ↦ ⟨payload, hsigned, hiat, hexp rfl, h⟩
    rw [hiff]
    dsimp only
    by_cases htype : payload.type = .access
    · rw [if_neg (not_not.mpr htype)]
      cases huser : s.accounts.users.find? (·.id = payload.sub) with
      | none => simp
      | some found => simp [htype]
    · rw [if_pos htype]
      simp [htype]

/-! ## What an event signs -/

/-- A refresh changes nothing, or signs one access token through a session. -/
theorem refresh_cases (refreshToken : Option Jwt) (accessJti : Name) :
    (∃ status message, s.refresh refreshToken accessJti = (.error status message, s)) ∨
    ∃ payload user, refreshToken = some (.signed payload) ∧ payload.type = .refresh ∧
      (s.get (sessionKey payload.sub payload.jti)).isSome ∧
      user ∈ s.accounts.users ∧ user.id = payload.sub ∧
      s.refresh refreshToken accessJti = (.refreshed (s.issueAccessToken user accessJti).1,
        (s.issueAccessToken user accessJti).2) := by
  unfold refresh
  split
  · exact Or.inl ⟨_, _, rfl⟩
  · split
    · exact Or.inl ⟨_, _, rfl⟩
    · exact Or.inl ⟨_, _, rfl⟩
    · rename_i payload hdecode
      split
      · exact Or.inl ⟨_, _, rfl⟩
      · rename_i htype
        split
        · exact Or.inl ⟨_, _, rfl⟩
        · rename_i hsession
          split
          · exact Or.inl ⟨_, _, rfl⟩
          · rename_i user huser
            have hsome : s.isRefreshTokenValid payload.sub payload.jti = true := by
              simpa only [Bool.not_eq_true', Bool.not_eq_false] using hsession
            have hid : user.id = payload.sub := by simpa using List.find?_some huser
            have hjwt := (jwtDecode_eq_ok.mp hdecode).1
            exact Or.inr
              ⟨payload, user, congrArg some hjwt, not_not.mp htype, hsome,
                List.mem_of_find?_eq_some huser, hid, rfl⟩

/-- The access token of an answer is signed. -/
theorem login_access {ip username password name : String} {draws : AuthDraws}
    {a r : JwtPayload} {apiKey : ApiKey}
    (h : (s.login check ip username password draws).1 = .loggedIn a r name apiKey) :
    a ∈ (s.login check ip username password draws).2.signed ∧ a.type = .access := by
  unfold login at h ⊢
  dsimp only at h ⊢
  split at h
  · cases h
  · rename_i hallowed
    rw [if_neg hallowed]
    split at h
    · cases h
    · rename_i hgiven
      rw [if_neg hgiven]
      split at h
      · cases h
      · split at h
        · cases h
        · rename_i hchecked
          rw [if_neg hchecked]
          split at h
          · cases h
          · cases h
            exact ⟨List.mem_cons_of_mem _ List.mem_cons_self, rfl⟩

theorem refresh_access {refreshToken : Option Jwt} {accessJti : Name}
    (h : (s.refresh refreshToken accessJti).1 = .refreshed p) :
    p ∈ (s.refresh refreshToken accessJti).2.signed ∧ p.type = .access := by
  rcases refresh_cases (s := s) refreshToken accessJti with
    ⟨status, message, hsame⟩ | ⟨payload, user, -, -, -, -, -, hissued⟩
  · rw [hsame] at h
    cases h
  · rw [hissued] at h ⊢
    cases h
    exact ⟨List.mem_cons_self, rfl⟩

theorem floor_second (t : Time) : t / second * second ≤ t := Int.ediv_mul_le t (by decide)

/-- A new token is of a login, with a session, or of a refresh, through a session. -/
theorem run_signed (h : s.Possible e) (hp : p ∈ (e.run check s).2.signed) (hnew : p ∉ s.signed) :
    (p.type = .access → p.exp * second ≤ (e.run check s).2.clock + accessTokenTtlSeconds) ∧
      (s.OpensSession check e p.sub ∨ (p.type = .access ∧ ∃ q ∈ s.signed, q.type = .refresh ∧
        q.sub = p.sub ∧ (s.get (sessionKey q.sub q.jti)).isSome)) := by
  cases e with
  | login ip username password draws =>
    obtain ⟨haccess, hrefresh, hne, helapsed⟩ := h
    obtain ⟨entry, hlimit⟩ := @checkRateLimit_spec s "login" ip
    rcases @loginState check s ip username password draws with
      ⟨status, message, hlogin⟩ | ⟨user, issued, accounts, hissued, hlogin, -⟩
    · have hstate : (AuthEvent.run check s (.login ip username password draws)).2 =
          (s.checkRateLimit "login" ip).2 := congrArg Prod.snd hlogin
      rw [hstate, hlimit] at hp
      exact absurd hp hnew
    · have hstate : (AuthEvent.run check s (.login ip username password draws)).2 =
          { issued.2 with accounts } := hlogin
      rw [hlimit] at hissued
      -- the refresh token of this login stands for its session
      have hopens : s.OpensSession check (.login ip username password draws) user.id := by
        refine ⟨issued.1, ?_, fun hold ↦ ?_, ?_, ?_⟩
        · rw [hstate, hissued]
          exact List.mem_cons_self
        · apply hrefresh issued.1 hold
          rw [hissued]
          rfl
        · rw [hissued]
          rfl
        · rw [hissued]
          rfl
      rw [hstate, hissued] at hp
      rcases List.mem_cons.mp hp with rfl | hp
      · exact ⟨fun htype ↦ (by cases htype), Or.inl hopens⟩
      · rcases List.mem_cons.mp hp with rfl | hp
        · refine ⟨fun _ ↦ ?_, Or.inl hopens⟩
          rw [hstate, hissued]
          show (s.clock + accessTokenTtlSeconds) / second * second ≤
            s.clock + draws.elapsed + accessTokenTtlSeconds
          calc (s.clock + accessTokenTtlSeconds) / second * second
              ≤ s.clock + accessTokenTtlSeconds := floor_second _
            _ ≤ s.clock + draws.elapsed + accessTokenTtlSeconds := by linarith
        · exact absurd hp hnew
  | refresh refreshToken accessJti =>
    have hstate : (AuthEvent.run check s (.refresh refreshToken accessJti)).2 =
        (s.refresh refreshToken accessJti).2 := rfl
    rcases refresh_cases (s := s) refreshToken accessJti with
      ⟨status, message, hsame⟩ | ⟨payload, user, hjwt, htype, hsome, -, hid, hissued⟩
    · rw [hstate, hsame] at hp
      exact absurd hp hnew
    · rw [hstate, hissued] at hp ⊢
      rcases List.mem_cons.mp hp with rfl | hp
      · exact ⟨fun _ ↦ floor_second _,
          Or.inr ⟨rfl, payload, h.1 payload hjwt, htype, hid.symm, hsome⟩⟩
      · exact absurd hp hnew
  | logout refreshToken =>
    have hstate : (AuthEvent.run check s (.logout refreshToken)).2 =
        (s.logout refreshToken).2 := rfl
    rcases logout_cases (s := s) refreshToken with hs | ⟨q, -, -, -, hs⟩
    · rw [hstate, hs] at hp
      exact absurd hp hnew
    · rw [hstate, hs] at hp
      exact absurd hp hnew
  | logoutAll bearer draws =>
    have hstate : (AuthEvent.run check s (.logoutAll bearer draws)).2 =
        (s.logoutAll bearer draws).2 := rfl
    rcases logoutAll_cases (s := s) bearer draws with hs | ⟨q, -, -, hs⟩
    · rw [hstate, hs] at hp
      exact absurd hp hnew
    · obtain ⟨redis, hrevoked, -⟩ := @revokeAllSessions_spec s q.sub draws.scans
      rw [hstate, hs, hrevoked] at hp
      exact absurd hp hnew
  | tick elapsed => exact absurd hp hnew
  | tables accounts => exact absurd hp hnew
  | other key entry => exact absurd hp hnew

/-- Old tokens do not change, and time does not go back. -/
theorem AccessEnds.run (hs : s.AccessEnds) (h : s.Possible e) : (e.run check s).2.AccessEnds := by
  intro p hp htype
  by_cases hold : p ∈ s.signed
  · have hclock := (@run_advance check _ _ h).clock
    calc p.exp * second ≤ s.clock + accessTokenTtlSeconds := hs p hold htype
      _ ≤ (e.run check s).2.clock + accessTokenTtlSeconds := Int.add_le_add_right hclock _
  · exact (run_signed h hp hold).1 htype

/-- A logout of all sessions signs the user out, but for the access tokens that are out. -/
theorem signedOut_of_logoutAll (hs : s.AccessEnds) (h : s.Possible e)
    (hout : s.LogsOutAll e userId) : (e.run check s).2.SignedOut userId
      ((e.run check s).2.clock + accessTokenTtlSeconds) where
  access p hp htype _ := hs.run h p hp htype
  sessions _ _ _ _ := run_revoked h (Or.inr hout)

/-- A user who is signed out stays so until a login. -/
theorem SignedOut.run (hs : s.SignedOut userId by_) (h : s.Possible e)
    (hlogin : ¬ s.OpensSession check e userId) : (e.run check s).2.SignedOut userId by_ := by
  constructor
  · intro p hp htype hsub
    by_cases hold : p ∈ s.signed
    · exact hs.access p hold htype hsub
    · -- a refresh would need a session of the user
      rcases (run_signed h hp hold).2 with hopens | ⟨-, q, hq, hrefresh, hsame, hsome⟩
      · rw [hsub] at hopens
        exact absurd hopens hlogin
      · have hnone := hs.sessions q hq hrefresh (hsame.trans hsub)
        rw [hsame, hsub, hnone] at hsome
        cases hsome
  · intro p hp htype hsub
    by_cases hold : p ∈ s.signed
    · by_cases hrevokes : s.Revokes e userId p.jti
      · exact run_revoked h hrevokes
      · have hkept := @run_redis check _ _ _ h hold (hsub ▸ hrevokes)
        rw [hsub] at hkept
        exact get_none_later (hs.sessions p hold htype hsub) hkept (run_advance h).clock
    · exact absurd ⟨p, hp, hold, htype, hsub⟩ hlogin

/-- Past the time no token at all passes as one of the user. -/
theorem SignedOut.refused (hs : s.SignedOut userId by_) (hlate : by_ ≤ s.clock)
    {bearer : Option Jwt} (hpresents : s.Presents bearer) (hok : s.requireJwt bearer = .ok user) :
    user.id ≠ userId := by
  intro hid
  cases bearer with
  | none => cases hok
  | some jwt =>
    obtain ⟨p, hp, -, hexp, htype, huser⟩ := requireJwt_eq_ok.mp hok
    have hsub : user.id = p.sub := by simpa using List.find?_some huser
    have hby := hs.access p (hpresents p (congrArg some hp)) htype (hsub.symm.trans hid)
    exact absurd (lt_of_lt_of_le hexp hby) (not_lt.mpr hlate)

end Access

end AuthState

/-! ## Runs -/

namespace AuthRun

variable {check : PasswordCheck} {s s' : AuthState} {trace : List (AuthState × AuthEvent)}

theorem accessEnds (h : AuthRun check s trace s') (hs : s.AccessEnds) : s'.AccessEnds := by
  induction h with
  | refl => exact hs
  | step _ hpossible ih => exact ih.run hpossible

theorem signedOut {userId : Int} {by_ : Time} (h : AuthRun check s trace s')
    (hs : s.SignedOut userId by_)
    (hlogin : ∀ x ∈ trace, ¬ x.1.OpensSession check x.2 userId) : s'.SignedOut userId by_ := by
  induction h with
  | refl => exact hs
  | step hrun hpossible ih =>
    have hlast := hlogin _ (List.mem_append_right _ (List.mem_singleton_self _))
    exact (ih fun x hx ↦ hlogin x (List.mem_append_left _ hx)).run hpossible hlast

end AuthRun

/-- From fifteen minutes after a logout of all sessions on, until the user logs in again, nothing
that anyone can present passes as the user. -/
theorem logout_all_ends_access {check : PasswordCheck} {s₀ s₁ s₂ : AuthState}
    {before after : List (AuthState × AuthEvent)} {e : AuthEvent} {userId : Int}
    (h₀ : s₀.signed = []) (hbefore : AuthRun check s₀ before s₁)
    (hpossible : s₁.Possible e) (hout : s₁.LogsOutAll e userId)
    (hafter : AuthRun check (e.run check s₁).2 after s₂)
    (hlogin : ∀ x ∈ after, ¬ x.1.OpensSession check x.2 userId)
    (hlate : (e.run check s₁).2.clock + accessTokenTtlSeconds ≤ s₂.clock) (bearer : Option Jwt)
    (hpresents : s₂.Presents bearer) : ∀ user, s₂.requireJwt bearer = .ok user →
      user.id ≠ userId := by
  have hends₀ : s₀.AccessEnds := by
    intro p hp
    rw [h₀] at hp
    cases hp
  have hends : s₁.AccessEnds := hbefore.accessEnds hends₀
  have hsignedOut := hafter.signedOut (AuthState.signedOut_of_logoutAll hends hpossible hout) hlogin
  exact fun _ hok ↦ hsignedOut.refused hlate hpresents hok

namespace Sample

def accessToken (userId : Int) : JwtPayload :=
  ⟨userId, "ann", .access, draws.accessJti, 0, 900⟩

def scanDraws : AuthDraws :=
  { draws with scans := [[rateLimitKey "login" "192.0.2.1", sessionKey 7 draws.refreshJti]] }

/-- A logout of all sessions of the user 7, who has just logged in. -/
def allOut : AuthEvent := .logoutAll (some (.signed (accessToken 7))) scanDraws

def loggedOut : AuthState := (allOut.run acceptPassword (loggedIn 7).2).2

theorem login7_possible : (authState 7).Possible (.login "192.0.2.1" "ann" "secret" draws) :=
  ⟨fun _ h ↦ (by cases h), fun _ h ↦ (by cases h), by decide +kernel, le_refl _⟩

theorem loggedIn7_redis {key : String} (hsome : ((loggedIn 7).2.get key).isSome) :
    key ∈ scanDraws.scans.flatten := by
  by_contra hno
  simp only [scanDraws, List.flatten_cons, List.flatten_nil, List.append_nil, List.mem_cons,
    List.not_mem_nil, or_false, not_or] at hno
  have hreply : (loggedIn 7).1 = .loggedIn (accessToken 7) (refreshToken 7) "ann" oldKey := by
    decide +kernel
  -- the login has written its counter and its session
  obtain ⟨entry, hlimit⟩ := @AuthState.checkRateLimit_spec (authState 7) "login" "192.0.2.1"
  have hnone : (loggedIn 7).2.redis key = ⟨none, none⟩ := by
    rcases @AuthState.loginState acceptPassword (authState 7) "192.0.2.1" "ann" "secret" draws with
      ⟨status, message, hlogin⟩ | ⟨user, issued, accounts, hissued, hlogin, hrefresh⟩
    · have herror : (loggedIn 7).1 = .error status message := congrArg Prod.fst hlogin
      rw [herror] at hreply
      cases hreply
    · have hid : issued.1.sub = 7 := by rw [← hrefresh _ _ _ _ hreply]; rfl
      have huser : issued.1.sub = user.id := by rw [hissued]; rfl
      have hstate : (loggedIn 7).2 = { issued.2 with accounts } := hlogin
      have hkey : key ≠ sessionKey user.id draws.refreshJti := by
        rw [← huser, hid]
        exact hno.2
      rw [hlimit] at hissued
      rw [hstate, hissued]
      show (AuthState.setex _ _ _).redis key = _
      rw [AuthState.setex, AuthState.put_redis_ne hkey]
      show ((authState 7).put (rateLimitKey "login" "192.0.2.1") entry).redis key = _
      rw [AuthState.put_redis_ne hno.1]
      rfl
  rw [AuthState.get_deleted hnone] at hsome
  cases hsome

end Sample

open Sample in
/-- Fifteen minutes after the logout the access token of the login is refused. -/
theorem logout_all_ends_access_ann : accessToken 7 ∈ loggedOut.signed ∧ ∀ user,
    (loggedOut.wait accessTokenTtlSeconds).requireJwt (some (.signed (accessToken 7))) = .ok user →
      user.id ≠ 7 := by
  refine ⟨by decide +kernel, ?_⟩
  have hpresents : (loggedIn 7).2.Presents (some (.signed (accessToken 7))) := by
    intro p hp
    cases hp
    decide +kernel
  have hpossible : (loggedIn 7).2.Possible allOut :=
    ⟨hpresents, le_refl _, fun key hsome _ ↦ loggedIn7_redis hsome⟩
  have hlogin : ∀ x ∈ [(loggedOut, AuthEvent.tick accessTokenTtlSeconds)],
      ¬ x.1.OpensSession acceptPassword x.2 7 := by
    intro x hx hopens
    rw [List.mem_singleton.mp hx] at hopens
    obtain ⟨p, hp, hnew, -⟩ := hopens
    exact hnew hp
  have htick : AuthRun acceptPassword loggedOut [(loggedOut, .tick accessTokenTtlSeconds)]
      (loggedOut.wait accessTokenTtlSeconds) :=
    AuthRun.step .refl (show (0 : Int) ≤ accessTokenTtlSeconds by decide)
  have hfirst : AuthRun acceptPassword (authState 7)
      [(authState 7, .login "192.0.2.1" "ann" "secret" draws)] (loggedIn 7).2 :=
    AuthRun.step .refl login7_possible
  apply logout_all_ends_access rfl hfirst hpossible
    ⟨accessToken 7, scanDraws, rfl, rfl, by decide +kernel⟩ htick hlogin (le_refl _)
  intro p hp
  cases hp
  decide +kernel

end TandemAio
