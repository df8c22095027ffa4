import Mathlib
import TandemAio.Accounts
import TandemAio.Reasoning.Expiring
import TandemAio.Reasoning.Glob

/-!
# `app/blueprints/auth.py`: sessions

Tokens, the session keys behind the refresh tokens, and how they are revoked.
-/

open Reasoning

namespace TandemAio

def accessTokenTtlSeconds : Time := 15 * 60 * second
def refreshTokenTtlSeconds : Time := 7 * 24 * 3600 * second
def rateLimitWindowSeconds : Time := 60 * second
def rateLimitMaxAttempts : Nat := 5

inductive TokenType
  | access
  | refresh
deriving DecidableEq

/-- The payload of a JWT. Its times are whole seconds. -/
structure JwtPayload where
  sub : Int
  username : String
  type : TokenType
  jti : Name
  iat : Int
  exp : Int
deriving DecidableEq

/-- What a client presents as a token: one that carries the signature of the server, or any other
text. -/
inductive Jwt
  | signed (payload : JwtPayload)
  | other
deriving DecidableEq

inductive JwtError
  | expiredSignature
  | invalidToken
deriving DecidableEq

/-- `jwt.decode`, with or without `verify_exp`. -/
def jwtDecode (now : Time) (verifyExp : Bool) : Jwt → Except JwtError JwtPayload
  | .other => .error .invalidToken
  | .signed payload =>
    if now < payload.iat * second then .error .invalidToken
    else if verifyExp ∧ payload.exp * second ≤ now then .error .expiredSignature
    else .ok payload

inductive AuthReply
  | error (status : Nat) (message : String)
  | loggedIn (accessToken refreshToken : JwtPayload) (username : String) (apiKey : ApiKey)
  | refreshed (accessToken : JwtPayload)
  | done (message : String)
deriving DecidableEq

/-- The server: the tables, the keys of Redis that hold a number, and the tokens signed so far. -/
structure AuthState where
  clock : Time
  accounts : Accounts
  redis : String → Expiring (Option Nat)
  signed : List JwtPayload

/-- What the server draws in a request, how long it waits in it, and what `SCAN` answers, call by
call, before the `MATCH`. -/
structure AuthDraws where
  accessJti : Name
  refreshJti : Name
  elapsed : Time
  apiKeys : List ApiKey
  scans : List (List String)

/-- `session:<user_id>:<jti>` -/
def sessionKey (userId : Int) (jti : Name) : String :=
  "session:" ++ toString userId ++ ":" ++ jti.text

/-- The pattern of `_revoke_all_sessions`. -/
def sessionPattern (userId : Int) : String := "session:" ++ toString userId ++ ":*"

/-- `_rate_limit_key` -/
def rateLimitKey (endpoint ip : String) : String := "ratelimit:" ++ endpoint ++ ":" ++ strStrip ip

namespace AuthState

/-! ## Commands -/

/-- `GET` -/
def get (s : AuthState) (key : String) : Option Nat := ((s.redis key).live none s.clock).value

@[simps] def put (s : AuthState) (key : String) (entry : Expiring (Option Nat)) :
    AuthState :=
  { s with redis := Function.update s.redis key entry }

/-- `SETEX key ttl 1` -/
def setex (s : AuthState) (key : String) (ttl : Time) : AuthState :=
  s.put key ⟨some 1, some (s.clock + ttl)⟩

/-- `DEL` -/
def delete (s : AuthState) (key : String) : AuthState := s.put key ⟨none, none⟩

/-- `INCR` -/
def incr (s : AuthState) (key : String) : Nat × AuthState :=
  let entry := (s.redis key).live none s.clock
  let count := entry.value.getD 0 + 1
  (count, s.put key ⟨some count, entry.expireAt⟩)

/-- `EXPIRE` of a key that exists. -/
def expire (s : AuthState) (key : String) (ttl : Time) : AuthState :=
  s.put key ⟨(s.redis key).value, some (s.clock + ttl)⟩

@[simps] def wait (s : AuthState) (elapsed : Time) : AuthState :=
  { s with clock := s.clock + elapsed }

/-! ## Tokens -/

/-- `jwt.encode` of a token that is valid for `ttl` from now. -/
def encode (s : AuthState) (user : User) (type : TokenType) (jti : Name) (ttl : Time) :
    JwtPayload × AuthState :=
  let payload : JwtPayload :=
    { sub := user.id, username := user.username, type := type, jti := jti,
      iat := s.clock / second, exp := (s.clock + ttl) / second }
  (payload, { s with signed := payload :: s.signed })

/-- `_issue_access_token` -/
def issueAccessToken (s : AuthState) (user : User) (jti : Name) : JwtPayload × AuthState :=
  s.encode user .access jti accessTokenTtlSeconds

/-- `_issue_refresh_token` -/
def issueRefreshToken (s : AuthState) (user : User) (jti : Name) (elapsed : Time) :
    JwtPayload × AuthState :=
  let (token, s) := s.encode user .refresh jti refreshTokenTtlSeconds
  (token, (s.wait elapsed).setex (sessionKey user.id jti) refreshTokenTtlSeconds)

/-- `_revoke_refresh_token` -/
def revokeRefreshToken (s : AuthState) (userId : Int) (jti : Name) : AuthState :=
  s.delete (sessionKey userId jti)

/-- `_is_refresh_token_valid` -/
def isRefreshTokenValid (s : AuthState) (userId : Int) (jti : Name) : Bool :=
  (s.get (sessionKey userId jti)).isSome

/-- The `DEL`s of the keys of one `SCAN`. -/
def deleteKeys (s : AuthState) (keys : List String) : AuthState := keys.foldl delete s

/-- `_revoke_all_sessions`, over what the `SCAN`s answer. -/
def revokeAllSessions (s : AuthState) (userId : Int) : List (List String) → AuthState
  | [] => s
  | keys :: scans =>
    (s.deleteKeys (keys.filter (globMatch (sessionPattern userId)))).revokeAllSessions userId scans

/-- `_check_rate_limit` -/
def checkRateLimit (s : AuthState) (endpoint ip : String) : Bool × AuthState :=
  let key := rateLimitKey endpoint ip
  let (count, s) := s.incr key
  (decide (count ≤ rateLimitMaxAttempts),
    if count = 1 then s.expire key rateLimitWindowSeconds else s)

def maxApiKeyGenerationAttempts : Nat := 10

/-- `_ensure_api_key_for_user`; `none` is the `RuntimeError`. -/
def ensureApiKeyForUser (a : Accounts) (user : User) (draws : List ApiKey) :
    Option (Accounts × ApiKey) :=
  match (a.keysOf user.id).head? with
  | some existing => some (a, existing.apiKey)
  | none => a.generate user.id (draws.take maxApiKeyGenerationAttempts)

/-! ## Routes -/

/-- `login` -/
def login (check : PasswordCheck) (s : AuthState) (ip username password : String)
    (draws : AuthDraws) : AuthReply × AuthState :=
  let (allowed, s) := s.checkRateLimit "login" ip
  if !allowed then (.error 429 "Too many login attempts. Please wait 60 seconds.", s)
  else
    let username := strStrip username
    if username = "" ∨ password = "" then (.error 400 "Username and password are required", s)
    else
      match s.accounts.users.find? (·.username = username) with
      | none => (.error 401 "Invalid credentials", s)
      | some user =>
        if !check user.password password then (.error 401 "Invalid credentials", s)
        else
          let (accessToken, s) := s.issueAccessToken user draws.accessJti
          let (refreshToken, s) := s.issueRefreshToken user draws.refreshJti draws.elapsed
          match ensureApiKeyForUser s.accounts user draws.apiKeys with
          | none => (.error 500 "Authentication service error", s)
          | some (accounts, apiKey) =>
            (.loggedIn accessToken refreshToken user.username apiKey, { s with accounts })

/-- `refresh`; a missing or empty `refresh_token` is `none`. -/
def refresh (s : AuthState) (refreshToken : Option Jwt) (accessJti : Name) :
    AuthReply × AuthState :=
  match refreshToken with
  | none => (.error 400 "refresh_token is required", s)
  | some jwt =>
    match jwtDecode s.clock true jwt with
    | .error .expiredSignature =>
      (.error 401 "Refresh token has expired. Please log in again.", s)
    | .error .invalidToken => (.error 401 "Invalid refresh token", s)
    | .ok payload =>
      if payload.type ≠ .refresh then (.error 401 "Token is not a refresh token", s)
      else if !s.isRefreshTokenValid payload.sub payload.jti then
        (.error 401 "Session has been revoked. Please log in again.", s)
      else
        match s.accounts.users.find? (·.id = payload.sub) with
        | none => (.error 401 "User not found", s)
        | some user =>
          let (accessToken, s) := s.issueAccessToken user accessJti
          (.refreshed accessToken, s)

/-- `logout` with `logout_all`; without a `Bearer` header the token is `none`. -/
def logoutAll (s : AuthState) (bearer : Option Jwt) (draws : AuthDraws) : AuthReply × AuthState :=
  match bearer with
  | none => (.error 401 "Authorization header required for logout_all", s)
  | some jwt =>
    match jwtDecode s.clock true jwt with
    | .error _ => (.error 401 "Invalid access token", s)
    | .ok payload =>
      (.done "All sessions revoked",
        (s.revokeAllSessions payload.sub draws.scans).wait draws.elapsed)

/-- `logout` of a single session. The test for an empty `jti` is settled by its type. -/
def logout (s : AuthState) (refreshToken : Option Jwt) : AuthReply × AuthState :=
  match refreshToken with
  | none => (.error 400 "refresh_token is required", s)
  | some jwt =>
    match jwtDecode s.clock false jwt with
    | .error _ => (.error 400 "Invalid refresh token", s)
    | .ok payload =>
      (.done "Logged out",
        if payload.sub ≠ 0 then s.revokeRefreshToken payload.sub payload.jti else s)

end AuthState

/-! ## Runs -/

/-- A request, or what else may happen. -/
inductive AuthEvent
  | login (ip username password : String) (draws : AuthDraws)
  | refresh (refreshToken : Option Jwt) (accessJti : Name)
  | logout (refreshToken : Option Jwt)
  | logoutAll (bearer : Option Jwt) (draws : AuthDraws)
  | tick (elapsed : Time)
  /-- Any other request, on the tables. -/
  | tables (accounts : Accounts)
  /-- Any other request, on a key that is not of a session. -/
  | other (key : String) (entry : Expiring (Option Nat))

namespace AuthEvent

/-- What an event answers, if anything, and what it leaves. -/
def run (check : PasswordCheck) (s : AuthState) : AuthEvent → Option AuthReply × AuthState
  | login ip username password draws =>
    (s.login check ip username password draws).map some id
  | refresh refreshToken accessJti => (s.refresh refreshToken accessJti).map some id
  | logout refreshToken => (s.logout refreshToken).map some id
  | logoutAll bearer draws => (s.logoutAll bearer draws).map some id
  | tick elapsed => (none, s.wait elapsed)
  | tables accounts => (none, { s with accounts })
  | other key entry => (none, s.put key entry)

end AuthEvent

namespace AuthState

/-- A token with the signature of the server is one that it has signed. -/
def Presents (s : AuthState) (jwt : Option Jwt) : Prop :=
  ∀ payload, jwt = some (.signed payload) → payload ∈ s.signed

def Unused (s : AuthState) (jti : Name) : Prop := ∀ payload ∈ s.signed, payload.jti ≠ jti

/-- The `SCAN`s of the request return every key that is present throughout. -/
def ScansAll (s : AuthState) (draws : AuthDraws) : Prop :=
  ∀ key, (s.get key).isSome → ((s.wait draws.elapsed).get key).isSome → key ∈ draws.scans.flatten

/-- What may happen next. -/
def Possible (s : AuthState) : AuthEvent → Prop
  | .login _ _ _ draws =>
    s.Unused draws.accessJti ∧ s.Unused draws.refreshJti ∧ draws.accessJti ≠ draws.refreshJti ∧
      0 ≤ draws.elapsed
  | .refresh refreshToken accessJti => s.Presents refreshToken ∧ s.Unused accessJti
  | .logout refreshToken => s.Presents refreshToken
  | .logoutAll bearer draws => s.Presents bearer ∧ 0 ≤ draws.elapsed ∧ s.ScansAll draws
  | .tick elapsed => 0 ≤ elapsed
  | .tables _ => True
  | .other key _ => ¬ "session:".toList <+: key.toList

end AuthState

/-- A run, with the events in it and the states they found. -/
inductive AuthRun (check : PasswordCheck) (s : AuthState) :
    List (AuthState × AuthEvent) → AuthState → Prop
  | refl : AuthRun check s [] s
  | step {trace : List (AuthState × AuthEvent)} {s' : AuthState} {e : AuthEvent} :
    AuthRun check s trace s' → s'.Possible e →
      AuthRun check s (trace ++ [(s', e)]) (e.run check s').2

namespace AuthState

/-- The event is a successful logout of the session. -/
def LogsOut (s : AuthState) (e : AuthEvent) (userId : Int) (jti : Name) : Prop :=
  ∃ payload, e = .logout (some (.signed payload)) ∧ payload.sub = userId ∧ payload.jti = jti ∧
    (s.logout (some (.signed payload))).1 = .done "Logged out"

/-- The event is a successful `logout_all` of the user. -/
def LogsOutAll (s : AuthState) (e : AuthEvent) (userId : Int) : Prop :=
  ∃ payload draws, e = .logoutAll (some (.signed payload)) draws ∧ payload.sub = userId ∧
    (s.logoutAll (some (.signed payload)) draws).1 = .done "All sessions revoked"

/-- The event revokes the session. A logout skips the user id 0. -/
def Revokes (s : AuthState) (e : AuthEvent) (userId : Int) (jti : Name) : Prop :=
  userId ≠ 0 ∧ s.LogsOut e userId jti ∨ s.LogsOutAll e userId

/-- `refresh` succeeds for the token. -/
def Refreshes (s : AuthState) (payload : JwtPayload) (accessJti : Name) : Prop :=
  ∃ token, (s.refresh (some (.signed payload)) accessJti).1 = .refreshed token

end AuthState

/-! ## Keys -/

section Keys

variable {userId v : Int} {jti k : Name}

theorem toString_userId {c : Char} (hc : c ∈ (toString userId).toList) :
    c ≠ ':' ∧ Glob.plain c = true := by
  have hchar : c.isDigit = true ∨ c = '-' := by
    rw [Int.toString_eq_repr, Int.repr_eq_if] at hc
    split at hc
    · rw [Nat.toList_repr] at hc
      exact Or.inl (Nat.isDigit_of_mem_toDigits (by decide) (by decide) hc)
    · rw [String.toList_append, Nat.toList_repr] at hc
      rcases List.mem_append.mp hc with hminus | hdigit
      · exact Or.inr (by simpa using hminus)
      · exact Or.inl (Nat.isDigit_of_mem_toDigits (by decide) (by decide) hdigit)
  rcases hchar with hdigit | rfl
  · have hspecial : ∀ d ∈ [':', '*', '?', '[', '\\'], c ≠ d := by
      rintro d hd rfl
      have hnot : [':', '*', '?', '[', '\\'].all (fun d ↦ !d.isDigit) = true := by decide
      have hno := List.all_eq_true.mp hnot c hd
      rw [hdigit] at hno
      cases hno
    unfold Glob.plain
    simp only [List.mem_cons, List.not_mem_nil, or_false, forall_eq_or_imp, forall_eq] at hspecial
    simpa [and_assoc] using hspecial
  · decide

theorem jti_no_colon : ':' ∉ jti.text.toList := by
  intro hc
  have hid := List.all_eq_true.mp jti.valid.2 ':' hc
  revert hid
  decide

theorem sessionKey_toList : (sessionKey userId jti).toList =
    "session:".toList ++ ((toString userId).toList ++ ':' :: jti.text.toList) := by
  unfold sessionKey
  simp only [String.toList_append, List.append_assoc]
  rfl

/-- The colon after the id parts it from the `jti`, also where one id begins with another. -/
theorem sessionKey_inj : sessionKey userId jti = sessionKey v k ↔ userId = v ∧ jti = k := by
  constructor
  · intro h
    have hlist := congrArg String.toList h
    rw [sessionKey_toList, sessionKey_toList, List.append_cancel_left_eq,
      List.append_cons_inj_of_notMem (fun hc ↦ (toString_userId hc).1 rfl) jti_no_colon] at hlist
    obtain ⟨hid, -, hjti⟩ := hlist
    refine ⟨Int.repr_injective (String.toList_injective hid), ?_⟩
    exact Name.text_injective (String.toList_injective hjti)
  · rintro ⟨rfl, rfl⟩
    rfl

theorem match_sessionKey :
    globMatch (sessionPattern userId) (sessionKey v k) = true ↔ userId = v := by
  have hpattern : (sessionPattern userId).toList =
      ("session:".toList ++ ((toString userId).toList ++ [':'])) ++ ['*'] := by
    unfold sessionPattern
    simp only [String.toList_append, List.append_assoc]
    rfl
  have hplain : ∀ c ∈ "session:".toList ++ ((toString userId).toList ++ [':']),
      Glob.plain c = true := by
    intro c hc
    rcases List.mem_append.mp hc with hc | hc
    · have hsession : "session:".toList.all Glob.plain = true := by decide
      exact List.all_eq_true.mp hsession c hc
    · rcases List.mem_append.mp hc with hc | hc
      · exact (toString_userId hc).2
      · rw [List.mem_singleton.mp hc]
        decide
  rw [globMatch_prefixed hpattern hplain, sessionKey_toList, List.prefix_append_right_inj]
  constructor
  · rintro ⟨t, ht⟩
    rw [List.append_assoc, List.singleton_append, eq_comm,
      List.append_cons_inj_of_notMem (fun hc ↦ (toString_userId hc).1 rfl) jti_no_colon] at ht
    exact (Int.repr_injective (String.toList_injective ht.1)).symm
  · rintro rfl
    exact ⟨k.text.toList, by simp⟩

end Keys

/-! ## What a request leaves -/

namespace AuthState

section Effects

variable {check : PasswordCheck} {s s' : AuthState} {p payload : JwtPayload} {userId v : Int}
  {jti k : Name} {key : String} {jwt : Jwt} {now : Time} {verifyExp : Bool}

theorem jwtDecode_eq_ok : jwtDecode now verifyExp jwt = .ok p ↔
    jwt = .signed p ∧ p.iat * second ≤ now ∧ (verifyExp = true → now < p.exp * second) := by
  cases jwt with
  | other => simp [jwtDecode]
  | signed payload =>
    unfold jwtDecode
    dsimp only
    split
    · rename_i hearly
      refine ⟨fun h ↦ (by cases h), ?_⟩
      rintro ⟨hsame, hiat, -⟩
      cases hsame
      exact absurd hearly (not_lt.mpr hiat)
    · rename_i hiat
      split
      · rename_i hexpired
        refine ⟨fun h ↦ (by cases h), ?_⟩
        rintro ⟨hsame, -, hexp⟩
        cases hsame
        exact absurd hexpired.2 (not_le.mpr (hexp hexpired.1))
      · rename_i hexp
        constructor
        · intro h
          cases h
          refine ⟨rfl, not_lt.mp hiat, fun hverify ↦ not_le.mp fun hle ↦ hexp ⟨hverify, hle⟩⟩
        · rintro ⟨hsame, -, -⟩
          cases hsame
          rfl

theorem put_redis_ne {entry : Expiring (Option Nat)} {other : String} (hne : other ≠ key) :
    (s.put key entry).redis other = s.redis other := by
  rw [put_redis, Function.update_of_ne hne]

theorem put_redis_self {entry : Expiring (Option Nat)} : (s.put key entry).redis key = entry := by
  rw [put_redis, Function.update_self]

theorem sessionKey_ne_of_not_prefixed (h : ¬ "session:".toList <+: key.toList) :
    sessionKey userId jti ≠ key := by
  rintro rfl
  apply h
  rw [sessionKey_toList]
  exact List.prefix_append _ _

theorem sessionKey_ne_rateLimitKey {endpoint ip : String} :
    sessionKey userId jti ≠ rateLimitKey endpoint ip := by
  apply sessionKey_ne_of_not_prefixed
  unfold rateLimitKey
  simp only [String.toList_append, List.append_assoc]
  rw [List.prefix_iff_eq_take]
  intro h
  have hfirst := congrArg List.head? h
  revert hfirst
  simp

/-- The limiter touches its own key only. -/
theorem checkRateLimit_spec {endpoint ip : String} :
    ∃ entry, (s.checkRateLimit endpoint ip).2 = s.put (rateLimitKey endpoint ip) entry := by
  unfold checkRateLimit incr expire
  dsimp only
  split
  · refine ⟨⟨some (((s.redis (rateLimitKey endpoint ip)).live none s.clock).value.getD 0 + 1),
      some (s.clock + rateLimitWindowSeconds)⟩, ?_⟩
    rw [put_redis_self]
    unfold put
    simp
  · exact ⟨_, rfl⟩

theorem deleteKeys_spec {keys : List String} : ∃ redis, s.deleteKeys keys = { s with redis } ∧
    ∀ key, redis key = if key ∈ keys then ⟨none, none⟩ else s.redis key := by
  induction keys generalizing s with
  | nil => exact ⟨s.redis, rfl, fun key ↦ by simp⟩
  | cons first keys ih =>
    obtain ⟨redis, hkeys, hredis⟩ := @ih (s.delete first)
    refine ⟨redis, hkeys, fun key ↦ ?_⟩
    rw [hredis]
    unfold delete
    by_cases hfirst : key = first
    · rw [hfirst, put_redis_self]
      simp
    · rw [put_redis_ne hfirst]
      simp [hfirst]

/-- The loop deletes what the scans return of the user's sessions, and nothing else. -/
theorem revokeAllSessions_spec {scans : List (List String)} :
    ∃ redis, s.revokeAllSessions userId scans = { s with redis } ∧ ∀ key, redis key =
      if key ∈ scans.flatten ∧ globMatch (sessionPattern userId) key = true then ⟨none, none⟩
      else s.redis key := by
  induction scans generalizing s with
  | nil => exact ⟨s.redis, rfl, fun key ↦ by simp⟩
  | cons keys scans ih =>
    obtain ⟨first, hfirst, hdeleted⟩ :=
      @deleteKeys_spec s (keys.filter (globMatch (sessionPattern userId)))
    obtain ⟨redis, hrest, hredis⟩ := @ih { s with redis := first }
    refine ⟨redis, ?_, fun key ↦ ?_⟩
    · rw [revokeAllSessions, hfirst, hrest]
    · rw [hredis]
      dsimp only
      rw [hdeleted]
      simp only [List.flatten_cons, List.mem_append, List.mem_filter]
      by_cases hmatch : globMatch (sessionPattern userId) key = true
      · by_cases hlater : key ∈ scans.flatten
        · simp [hlater, hmatch]
        · simp [hlater, hmatch]
      · simp [hmatch]

/-! ## Tokens -/

/-- The tokens of a run: signed in the past, and no two with one `jti`. -/
structure Valid (s : AuthState) : Prop where
  iat : ∀ p ∈ s.signed, p.iat * second ≤ s.clock
  unique : (s.signed.map JwtPayload.jti).Nodup

theorem Valid.later (h : s.Valid) (hsigned : s'.signed = s.signed) (hclock : s.clock ≤ s'.clock) :
    s'.Valid := by
  refine ⟨fun p hp ↦ ?_, ?_⟩
  · rw [hsigned] at hp
    exact le_trans (h.iat p hp) hclock
  · rw [hsigned]
    exact h.unique

theorem Valid.encode {user : User} {type : TokenType} {ttl : Time} (h : s.Valid)
    (hjti : s.Unused jti) : (s.encode user type jti ttl).2.Valid := by
  unfold AuthState.encode
  refine ⟨fun p hp ↦ ?_, ?_⟩
  · rcases List.mem_cons.mp hp with rfl | hp
    · exact Int.ediv_mul_le s.clock (by decide)
    · exact h.iat p hp
  · show (jti :: s.signed.map JwtPayload.jti).Nodup
    refine List.nodup_cons.mpr ⟨fun hmem ↦ ?_, h.unique⟩
    obtain ⟨p, hp, hsame⟩ := List.mem_map.mp hmem
    exact hjti p hp hsame

/-! ## Steps -/

theorem loginState {ip username password : String} {draws : AuthDraws} :
    (∃ status message, s.login check ip username password draws =
      (.error status message, (s.checkRateLimit "login" ip).2)) ∨
    ∃ user issued accounts,
      issued = ((s.checkRateLimit "login" ip).2.issueAccessToken user
        draws.accessJti).2.issueRefreshToken user draws.refreshJti draws.elapsed ∧
      (s.login check ip username password draws).2 = { issued.2 with accounts } ∧
      ∀ a r name apiKey, (s.login check ip username password draws).1 = .loggedIn a r name apiKey →
        r = issued.1 := by
  unfold login
  dsimp only
  split
  · exact Or.inl ⟨_, _, rfl⟩
  · split
    · exact Or.inl ⟨_, _, rfl⟩
    · split
      · exact Or.inl ⟨_, _, rfl⟩
      · rename_i user huser
        split
        · exact Or.inl ⟨_, _, rfl⟩
        · right
          split
          · exact ⟨user, _, _, rfl, rfl, fun a r name apiKey h ↦ by cases h⟩
          · refine ⟨user, _, _, rfl, rfl, fun a r name apiKey h ↦ ?_⟩
            cases h
            rfl

theorem refresh_iff_valid {accessJti : Name} (hiat : p.iat * second ≤ s.clock)
    (htype : p.type = .refresh) : s.Refreshes p accessJti ↔
      s.clock < p.exp * second ∧ (∃ user ∈ s.accounts.users, user.id = p.sub) ∧
        (s.get (sessionKey p.sub p.jti)).isSome := by
  unfold Refreshes refresh
  dsimp only
  by_cases hexp : s.clock < p.exp * second
  · rw [jwtDecode_eq_ok.mpr ⟨rfl, hiat, fun _ ↦ hexp⟩]
    dsimp only
    rw [if_neg (not_not.mpr htype)]
    unfold isRefreshTokenValid
    cases (s.get (sessionKey p.sub p.jti)).isSome with
    | false => simp
    | true =>
      cases huser : s.accounts.users.find? (·.id = p.sub) with
      | none =>
        have hnone : ¬ ∃ user ∈ s.accounts.users, user.id = p.sub := by
          rintro ⟨user, hmem, hid⟩
          have hno := List.find?_eq_none.mp huser user hmem
          simp [hid] at hno
        simp [hnone]
      | some user =>
        have hid : user.id = p.sub := by simpa using List.find?_some huser
        have hexists : ∃ user ∈ s.accounts.users, user.id = p.sub :=
          ⟨user, List.mem_of_find?_eq_some huser, hid⟩
        simp [hexists, hexp]
  · refine iff_of_false ?_ (fun h ↦ hexp h.1)
    rintro ⟨token, htoken⟩
    split at htoken
    · cases htoken
    · cases htoken
    · rename_i q hq
      obtain ⟨hsame, -, hlt⟩ := jwtDecode_eq_ok.mp hq
      cases hsame
      exact hexp (hlt rfl)

/-- What every event does to the clock and the tokens. -/
structure Advance (s s' : AuthState) : Prop where
  clock : s.clock ≤ s'.clock
  signed : ∀ p ∈ s.signed, p ∈ s'.signed
  valid : s.Valid → s'.Valid

theorem Advance.later (hsigned : s'.signed = s.signed) (hclock : s.clock ≤ s'.clock) :
    Advance s s' :=
  ⟨hclock, fun _ hp ↦ hsigned ▸ hp, fun h ↦ h.later hsigned hclock⟩

theorem Advance.trans {s'' : AuthState} (h : Advance s s') (h' : Advance s' s'') : Advance s s'' :=
  ⟨le_trans h.clock h'.clock, fun p hp ↦ h'.signed p (h.signed p hp),
    fun hs ↦ h'.valid (h.valid hs)⟩

theorem Advance.encode {user : User} {type : TokenType} {ttl : Time} (hjti : s.Unused jti) :
    Advance s (s.encode user type jti ttl).2 :=
  ⟨le_refl _, fun _ hp ↦ List.mem_cons_of_mem _ hp, fun hs ↦ hs.encode hjti⟩

section Login

variable {ip username password : String} {draws : AuthDraws}

theorem login_advance (h : s.Possible (.login ip username password draws)) :
    Advance s (s.login check ip username password draws).2 := by
  obtain ⟨haccess, hrefresh, hne, helapsed⟩ := h
  obtain ⟨entry, hlimit⟩ := @checkRateLimit_spec s "login" ip
  have hput : Advance s (s.put (rateLimitKey "login" ip) entry) := Advance.later rfl (le_refl _)
  rcases @loginState check s ip username password draws with
    ⟨status, message, hlogin⟩ | ⟨user, issued, accounts, hissued, hlogin, -⟩
  · rw [hlogin, hlimit]
    exact hput
  · rw [hlogin, hissued, hlimit]
    have hsecond : (((s.put (rateLimitKey "login" ip) entry).issueAccessToken user
        draws.accessJti).2).Unused draws.refreshJti := by
      intro q hq
      rcases List.mem_cons.mp hq with rfl | hq
      · exact hne
      · exact hrefresh q hq
    apply (hput.trans (Advance.encode haccess)).trans
    apply (Advance.encode hsecond).trans
    exact Advance.later rfl (le_add_of_nonneg_right helapsed)

/-- A login writes one session key, under the id it has drawn. -/
theorem login_redis (hne : jti ≠ draws.refreshJti) :
    (s.login check ip username password draws).2.redis (sessionKey userId jti) =
      s.redis (sessionKey userId jti) := by
  obtain ⟨entry, hlimit⟩ := @checkRateLimit_spec s "login" ip
  rcases @loginState check s ip username password draws with
    ⟨status, message, hlogin⟩ | ⟨user, issued, accounts, hissued, hlogin, -⟩
  · rw [hlogin, hlimit, put_redis_ne sessionKey_ne_rateLimitKey]
  · rw [hlogin, hissued, hlimit]
    have hkey : sessionKey userId jti ≠ sessionKey user.id draws.refreshJti :=
      fun hsame ↦ hne (sessionKey_inj.mp hsame).2
    show (AuthState.setex _ _ _).redis _ = _
    rw [setex, put_redis_ne hkey]
    show (s.put (rateLimitKey "login" ip) entry).redis (sessionKey userId jti) = _
    exact put_redis_ne sessionKey_ne_rateLimitKey

/-- The session key of a new token outlives the token. -/
theorem login_issued {a : JwtPayload} {name : String} {apiKey : ApiKey}
    (helapsed : 0 ≤ draws.elapsed)
    (h : (s.login check ip username password draws).1 = .loggedIn a p name apiKey) :
    p ∈ (s.login check ip username password draws).2.signed ∧ p.type = .refresh ∧
      ∃ t, (s.login check ip username password draws).2.redis (sessionKey p.sub p.jti) =
        ⟨some 1, some t⟩ ∧ p.exp * second ≤ t := by
  obtain ⟨entry, hlimit⟩ := @checkRateLimit_spec s "login" ip
  rcases @loginState check s ip username password draws with
    ⟨status, message, hlogin⟩ | ⟨user, issued, accounts, hissued, hlogin, hreply⟩
  · rw [hlogin] at h
    cases h
  · have hp := hreply a p name apiKey h
    rw [hlogin, hp, hissued, hlimit]
    refine ⟨List.mem_cons_self, rfl, _, put_redis_self, ?_⟩
    show (s.clock + refreshTokenTtlSeconds) / second * second ≤
      s.clock + draws.elapsed + refreshTokenTtlSeconds
    have hfloor := Int.ediv_mul_le (s.clock + refreshTokenTtlSeconds)
      (show second ≠ 0 by decide)
    calc (s.clock + refreshTokenTtlSeconds) / second * second
        ≤ s.clock + refreshTokenTtlSeconds := hfloor
      _ ≤ s.clock + draws.elapsed + refreshTokenTtlSeconds := by linarith

end Login

theorem refresh_advance {refreshToken : Option Jwt} (h : s.Unused jti) :
    Advance s (s.refresh refreshToken jti).2 ∧
      (s.refresh refreshToken jti).2.redis = s.redis := by
  have hsame : Advance s s := Advance.later rfl (le_refl _)
  unfold refresh
  split
  · exact ⟨hsame, rfl⟩
  · split
    · exact ⟨hsame, rfl⟩
    · exact ⟨hsame, rfl⟩
    · split
      · exact ⟨hsame, rfl⟩
      · split
        · exact ⟨hsame, rfl⟩
        · split
          · exact ⟨hsame, rfl⟩
          · exact ⟨Advance.encode h, rfl⟩

/-- A logout deletes at most the key of the session of the token. -/
theorem logout_cases (refreshToken : Option Jwt) :
    (s.logout refreshToken).2 = s ∨ ∃ p, refreshToken = some (.signed p) ∧
      (s.logout refreshToken).1 = .done "Logged out" ∧ p.sub ≠ 0 ∧
      (s.logout refreshToken).2 = s.delete (sessionKey p.sub p.jti) := by
  unfold logout
  split
  · exact Or.inl rfl
  · split
    · exact Or.inl rfl
    · rename_i jwt q hq
      by_cases hzero : q.sub = 0
      · exact Or.inl (if_neg (not_not.mpr hzero))
      · obtain ⟨rfl, -, -⟩ := jwtDecode_eq_ok.mp hq
        exact Or.inr ⟨q, rfl, rfl, hzero, if_pos hzero⟩

theorem logoutAll_cases (bearer : Option Jwt) (draws : AuthDraws) :
    (s.logoutAll bearer draws).2 = s ∨ ∃ p, bearer = some (.signed p) ∧
      (s.logoutAll bearer draws).1 = .done "All sessions revoked" ∧
      (s.logoutAll bearer draws).2 =
        (s.revokeAllSessions p.sub draws.scans).wait draws.elapsed := by
  unfold logoutAll
  split
  · exact Or.inl rfl
  · split
    · exact Or.inl rfl
    · rename_i jwt q hq
      obtain ⟨rfl, -, -⟩ := jwtDecode_eq_ok.mp hq
      exact Or.inr ⟨q, rfl, rfl, rfl⟩

theorem run_advance {e : AuthEvent} (h : s.Possible e) : Advance s (e.run check s).2 := by
  have hsame : Advance s s := Advance.later rfl (le_refl _)
  cases e with
  | login ip username password draws => exact login_advance h
  | refresh refreshToken accessJti => exact (refresh_advance h.2).1
  | logout refreshToken =>
    rcases logout_cases (s := s) refreshToken with hs | ⟨p, -, -, -, hs⟩
    · show Advance s (s.logout refreshToken).2
      rw [hs]
      exact hsame
    · show Advance s (s.logout refreshToken).2
      rw [hs]
      exact Advance.later rfl (le_refl _)
  | logoutAll bearer draws =>
    rcases logoutAll_cases (s := s) bearer draws with hs | ⟨p, -, -, hs⟩
    · show Advance s (s.logoutAll bearer draws).2
      rw [hs]
      exact hsame
    · obtain ⟨redis, hrevoked, -⟩ := @revokeAllSessions_spec s p.sub draws.scans
      show Advance s (s.logoutAll bearer draws).2
      rw [hs, hrevoked]
      exact Advance.later rfl (le_add_of_nonneg_right h.2.1)
  | tick elapsed => exact Advance.later rfl (le_add_of_nonneg_right h)
  | tables accounts => exact Advance.later rfl (le_refl _)
  | other key entry => exact Advance.later rfl (le_refl _)

/-- Only a revocation touches the key of a session. -/
theorem run_redis {e : AuthEvent} (h : s.Possible e) (hp : p ∈ s.signed)
    (hno : ¬ s.Revokes e p.sub p.jti) :
    (e.run check s).2.redis (sessionKey p.sub p.jti) = s.redis (sessionKey p.sub p.jti) := by
  cases e with
  | login ip username password draws => exact login_redis (h.2.1 p hp)
  | refresh refreshToken accessJti => exact congrFun (refresh_advance h.2).2 _
  | logout refreshToken =>
    show (s.logout refreshToken).2.redis _ = _
    rcases logout_cases (s := s) refreshToken with hsame | ⟨q, rfl, hdone, hzero, hdelete⟩
    · rw [hsame]
    · rw [hdelete, delete]
      apply put_redis_ne
      intro hkey
      obtain ⟨hsub, hjti⟩ := sessionKey_inj.mp hkey
      apply hno
      rw [hsub, hjti]
      exact Or.inl ⟨hzero, q, rfl, rfl, rfl, hdone⟩
  | logoutAll bearer draws =>
    show (s.logoutAll bearer draws).2.redis _ = _
    rcases logoutAll_cases (s := s) bearer draws with hsame | ⟨q, rfl, hdone, hrevoke⟩
    · rw [hsame]
    · obtain ⟨redis, hrevoked, hredis⟩ := @revokeAllSessions_spec s q.sub draws.scans
      rw [hrevoke, hrevoked, wait_redis]
      dsimp only
      rw [hredis, if_neg]
      rintro ⟨-, hmatch⟩
      rw [match_sessionKey] at hmatch
      apply hno
      rw [← hmatch]
      exact Or.inr ⟨q, draws, rfl, rfl, hdone⟩
  | tick elapsed => rfl
  | tables accounts => rfl
  | other key entry => exact put_redis_ne (sessionKey_ne_of_not_prefixed h)

theorem get_none_later (h : s.get key = none) (hredis : s'.redis key = s.redis key)
    (hclock : s.clock ≤ s'.clock) : s'.get key = none := by
  unfold get at h ⊢
  rw [hredis]
  rcases Expiring.live_eq_or none s.clock (s.redis key) with ⟨hlive, -⟩ | ⟨-, t, ht, hle⟩
  · rcases Expiring.live_eq_or none s'.clock (s.redis key) with ⟨hlive', -⟩ | ⟨hlive', -⟩
    · rw [hlive']
      rw [hlive] at h
      exact h
    · rw [hlive']
  · rcases Expiring.live_eq_or none s'.clock (s.redis key) with ⟨-, hbefore⟩ | ⟨hlive', -⟩
    · exact absurd (le_trans hle hclock) (not_le.mpr (hbefore t ht))
    · rw [hlive']

theorem get_deleted (h : s.redis key = ⟨none, none⟩) : s.get key = none := by
  unfold get
  rw [h]
  rfl

theorem get_live {n : Nat} {t : Time} (h : s.redis key = ⟨some n, some t⟩) (ht : s.clock < t) :
    s.get key = some n := by
  unfold get
  rw [h]
  show ((if t ≤ s.clock then _ else _ : Expiring (Option Nat))).value = _
  rw [if_neg (not_le.mpr ht)]

/-- A revocation leaves nothing of the session. -/
theorem run_revoked {e : AuthEvent} (h : s.Possible e) (hrevokes : s.Revokes e userId jti) :
    (e.run check s).2.get (sessionKey userId jti) = none := by
  rcases hrevokes with ⟨hzero, q, rfl, rfl, rfl, hdone⟩ | ⟨q, draws, rfl, rfl, hdone⟩
  · have hdelete : (s.logout (some (.signed q))).2 = s.delete (sessionKey q.sub q.jti) := by
      unfold logout at hdone ⊢
      dsimp only at hdone ⊢
      cases hdecode : jwtDecode s.clock false (.signed q) with
      | error e =>
        rw [hdecode] at hdone
        cases hdone
      | ok payload =>
        obtain ⟨hsame, -, -⟩ := jwtDecode_eq_ok.mp hdecode
        cases hsame
        exact if_pos hzero
    show (s.logout (some (.signed q))).2.get _ = none
    rw [hdelete]
    exact get_deleted put_redis_self
  · obtain ⟨redis, hrevoked, hredis⟩ := @revokeAllSessions_spec s q.sub draws.scans
    have hstate : (s.logoutAll (some (.signed q)) draws).2 =
        { s with redis }.wait draws.elapsed := by
      rw [← hrevoked]
      unfold logoutAll at hdone ⊢
      dsimp only at hdone ⊢
      cases hdecode : jwtDecode s.clock true (.signed q) with
      | error e =>
        rw [hdecode] at hdone
        cases hdone
      | ok payload =>
        obtain ⟨hsame, -, -⟩ := jwtDecode_eq_ok.mp hdecode
        cases hsame
        rfl
    show (s.logoutAll (some (.signed q)) draws).2.get _ = none
    rw [hstate]
    by_cases hscanned : sessionKey q.sub jti ∈ draws.scans.flatten
    · apply get_deleted
      show redis _ = _
      rw [hredis, if_pos ⟨hscanned, match_sessionKey.mpr rfl⟩]
    · -- a key that no scan returns was gone before the scans ended
      have hkept : ({ s with redis }.wait draws.elapsed).redis (sessionKey q.sub jti) =
          s.redis (sessionKey q.sub jti) := by
        show redis _ = _
        rw [hredis, if_neg fun hin ↦ hscanned hin.1]
      have hgone : (s.wait draws.elapsed).get (sessionKey q.sub jti) = none := by
        by_contra hlater
        apply hscanned
        apply h.2.2 _ _ (Option.isSome_iff_ne_none.mpr hlater)
        rw [Option.isSome_iff_ne_none]
        intro hnow
        exact hlater (get_none_later hnow rfl (le_add_of_nonneg_right h.2.1))
      exact get_none_later hgone hkept (le_refl _)

/-- A logout leaves the tables and the sessions of other users alone. -/
theorem run_other {e : AuthEvent} (hlogout : s.LogsOut e userId jti ∨ s.LogsOutAll e userId)
    (hne : userId ≠ v) :
    (e.run check s).2.redis (sessionKey v k) = s.redis (sessionKey v k) ∧
      (e.run check s).2.accounts = s.accounts := by
  rcases hlogout with ⟨q, rfl, hsub, -, -⟩ | ⟨q, draws, rfl, hsub, -⟩
  · have hrun : (AuthEvent.run check s (.logout (some (.signed q)))).2 =
        (s.logout (some (.signed q))).2 := rfl
    rw [hrun]
    rcases logout_cases (s := s) (some (.signed q)) with hsame | ⟨q', hq', -, -, hdelete⟩
    · rw [hsame]
      exact ⟨rfl, rfl⟩
    · cases hq'
      rw [hdelete]
      refine ⟨put_redis_ne fun hkey ↦ hne ?_, rfl⟩
      rw [← hsub, (sessionKey_inj.mp hkey).1]
  · have hrun : (AuthEvent.run check s (.logoutAll (some (.signed q)) draws)).2 =
        (s.logoutAll (some (.signed q)) draws).2 := rfl
    rw [hrun]
    rcases logoutAll_cases (s := s) (some (.signed q)) draws with hsame | ⟨q', hq', -, hrevoke⟩
    · rw [hsame]
      exact ⟨rfl, rfl⟩
    · cases hq'
      obtain ⟨redis, hrevoked, hredis⟩ := @revokeAllSessions_spec s q.sub draws.scans
      rw [hrevoke, hrevoked]
      refine ⟨?_, rfl⟩
      show redis _ = _
      rw [hredis, if_neg]
      rintro ⟨-, hmatch⟩
      exact hne (hsub ▸ match_sessionKey.mp hmatch)

end Effects

end AuthState

/-! ## Runs of a session -/

namespace AuthRun

variable {check : PasswordCheck} {s s' : AuthState} {trace : List (AuthState × AuthEvent)}
  {p : JwtPayload}

theorem valid (h : AuthRun check s trace s') (hs : s.Valid) : s'.Valid := by
  induction h with
  | refl => exact hs
  | step _ hpossible ih => exact (AuthState.run_advance hpossible).valid ih

theorem signed (h : AuthRun check s trace s') (hp : p ∈ s.signed) : p ∈ s'.signed := by
  induction h with
  | refl => exact hp
  | step _ hpossible ih => exact (AuthState.run_advance hpossible).signed p ih

/-- Until it is revoked the key of a session stays as the login has set it. -/
theorem redis (h : AuthRun check s trace s') (hp : p ∈ s.signed)
    (hno : ∀ x ∈ trace, ¬ x.1.Revokes x.2 p.sub p.jti) :
    s'.redis (sessionKey p.sub p.jti) = s.redis (sessionKey p.sub p.jti) := by
  induction h with
  | refl => rfl
  | step hrun hpossible ih =>
    have hlast := hno _ (List.mem_append_right _ (List.mem_singleton_self _))
    rw [AuthState.run_redis hpossible (hrun.signed hp) hlast]
    exact ih fun x hx ↦ hno x (List.mem_append_left _ hx)

/-- A session that is revoked stays so. -/
theorem revoked (h : AuthRun check s trace s') (hp : p ∈ s.signed)
    (hrevoked : ∃ x ∈ trace, x.1.Revokes x.2 p.sub p.jti) :
    s'.get (sessionKey p.sub p.jti) = none := by
  induction h with
  | refl =>
    obtain ⟨x, hx, -⟩ := hrevoked
    cases hx
  | @step trace s' e hrun hpossible ih =>
    by_cases hlast : s'.Revokes e p.sub p.jti
    · exact AuthState.run_revoked hpossible hlast
    · have hbefore : ∃ x ∈ trace, x.1.Revokes x.2 p.sub p.jti := by
        obtain ⟨x, hx, hrevokes⟩ := hrevoked
        rcases List.mem_append.mp hx with hx | hx
        · exact ⟨x, hx, hrevokes⟩
        · rw [List.mem_singleton.mp hx] at hrevokes
          exact absurd hrevokes hlast
      exact AuthState.get_none_later (ih hbefore)
        (AuthState.run_redis hpossible (hrun.signed hp) hlast)
        (AuthState.run_advance hpossible).clock

end AuthRun

/-- A refresh token works until it expires, its user is gone, or its session is revoked; and no
logout of another user changes that. -/
theorem session_revocation {check : PasswordCheck} {s₀ s₁ s₂ : AuthState}
    {before after : List (AuthState × AuthEvent)} {ip username password name : String}
    {draws : AuthDraws} {access payload : JwtPayload} {apiKey : ApiKey}
    (h₀ : s₀.signed = []) (hbefore : AuthRun check s₀ before s₁)
    (hpossible : s₁.Possible (.login ip username password draws))
    (hlogin : (s₁.login check ip username password draws).1 =
      .loggedIn access payload name apiKey)
    (hafter : AuthRun check (s₁.login check ip username password draws).2 after s₂) :
    (∀ accessJti, s₂.Refreshes payload accessJti ↔
      s₂.clock < payload.exp * second ∧ (∃ user ∈ s₂.accounts.users, user.id = payload.sub) ∧
        ∀ x ∈ after, ¬ x.1.Revokes x.2 payload.sub payload.jti) ∧
    ∀ e userId jti, (s₂.LogsOut e userId jti ∨ s₂.LogsOutAll e userId) → userId ≠ payload.sub →
      ∀ now accessJti, s₂.clock ≤ now →
        (({ (e.run check s₂).2 with clock := now } : AuthState).Refreshes payload accessJti ↔
          ({ s₂ with clock := now } : AuthState).Refreshes payload accessJti) := by
  have hvalid₀ : s₀.Valid := by
    refine ⟨fun p hp ↦ ?_, ?_⟩
    · rw [h₀] at hp
      cases hp
    · rw [h₀]
      exact List.nodup_nil
  have hvalid : s₂.Valid :=
    hafter.valid ((AuthState.login_advance hpossible).valid (hbefore.valid hvalid₀))
  obtain ⟨hsigned, htype, t, hentry, hexp⟩ := AuthState.login_issued hpossible.2.2.2 hlogin
  have hiat := hvalid.iat payload (hafter.signed hsigned)
  refine ⟨fun accessJti ↦ ?_, fun e userId jti hlogout hne now accessJti hnow ↦ ?_⟩
  · rw [AuthState.refresh_iff_valid hiat htype]
    refine and_congr_right fun hunexpired ↦ and_congr_right fun _ ↦ ?_
    constructor
    · intro hsome x hx hrevokes
      rw [hafter.revoked hsigned ⟨x, hx, hrevokes⟩] at hsome
      cases hsome
    · intro hno
      have hkept := hafter.redis hsigned hno
      rw [hentry] at hkept
      rw [AuthState.get_live hkept (lt_of_lt_of_le hunexpired hexp)]
      rfl
  · have hother : (e.run check s₂).2.redis (sessionKey payload.sub payload.jti) =
        s₂.redis (sessionKey payload.sub payload.jti) ∧
        (e.run check s₂).2.accounts = s₂.accounts := AuthState.run_other hlogout hne
    have hiat' : payload.iat * second ≤ now := le_trans hiat hnow
    rw [AuthState.refresh_iff_valid (s := { (e.run check s₂).2 with clock := now }) hiat' htype,
      AuthState.refresh_iff_valid (s := { s₂ with clock := now }) hiat' htype]
    unfold AuthState.get
    dsimp only
    rw [hother.1, hother.2]

namespace Sample

def draws : AuthDraws where
  accessJti := ⟨"a1", by decide⟩
  refreshJti := ⟨"r1", by decide⟩
  elapsed := 0
  apiKeys := []
  scans := []

/-- A server with one user, who has a key, and no sessions. -/
def authState (userId : Int) : AuthState where
  clock := 0
  accounts :=
    { users := [⟨userId, "ann", "hash"⟩], userApi := [⟨userId, oldKey⟩],
      unique := List.nodup_singleton _, deployment := fun _ ↦ none }
  redis := fun _ ↦ ⟨none, none⟩
  signed := []

def loggedIn (userId : Int) : AuthReply × AuthState :=
  (authState userId).login acceptPassword "192.0.2.1" "ann" "secret" draws

def refreshToken (userId : Int) : JwtPayload :=
  ⟨userId, "ann", .refresh, ⟨"r1", by decide⟩, 0, 604800⟩

end Sample

/-- Right after a login the token works. -/
theorem session_revocation_login :
    (Sample.loggedIn 7).2.Refreshes (Sample.refreshToken 7) ⟨"a2", by decide⟩ := by
  have hlogin : (Sample.loggedIn 7).1 = .loggedIn ⟨7, "ann", .access, ⟨"a1", by decide⟩, 0, 900⟩
      (Sample.refreshToken 7) "ann" Sample.oldKey := by decide +kernel
  have hpossible : (Sample.authState 7).Possible
      (.login "192.0.2.1" "ann" "secret" Sample.draws) :=
    ⟨fun _ h ↦ (by cases h), fun _ h ↦ (by cases h), by decide +kernel, le_refl _⟩
  have hrefreshes := (session_revocation rfl .refl hpossible hlogin .refl).1 ⟨"a2", by decide⟩
  apply hrefreshes.mpr
  refine ⟨by decide +kernel, ⟨⟨7, "ann", "hash"⟩, by decide +kernel, rfl⟩, fun x hx ↦ ?_⟩
  cases hx

/-- The user with the id 0 is told of a logout, and the token goes on working. -/
theorem logout_skips_zero :
    (Sample.loggedIn 0).1 = .loggedIn ⟨0, "ann", .access, ⟨"a1", by decide⟩, 0, 900⟩
      (Sample.refreshToken 0) "ann" Sample.oldKey ∧
    ((Sample.loggedIn 0).2.logout (some (.signed (Sample.refreshToken 0)))).1 =
      .done "Logged out" ∧
    (((Sample.loggedIn 0).2.logout (some (.signed (Sample.refreshToken 0)))).2.refresh
      (some (.signed (Sample.refreshToken 0))) ⟨"a2", by decide⟩).1 =
      .refreshed ⟨0, "ann", .access, ⟨"a2", by decide⟩, 0, 900⟩ := by
  decide +kernel

end TandemAio
