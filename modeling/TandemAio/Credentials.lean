import Mathlib
import TandemAio.AccessTokens
import TandemAio.Reasoning.Interleave

/-!
# `cli/auth.py`: the credentials of a client

The commands of the client keep what they need to authenticate in the keyring of the system, or in a
file where the keyring cannot be reached.  Any number of commands run at a time, each of which may
stop at any point, while the servers answer everybody's requests.
-/

open Reasoning Reasoning.Prog

namespace TandemAio

def defaultServerUrl : String := "https://tandem.wnusair.org"

inductive CredentialKey
  | username
  | accessToken
  | refreshToken
  | apiKey
  | serverUrl
  | registrationToken
deriving DecidableEq

/-- A token as the client has it, and the server that has signed it. -/
structure ClientToken where
  server : String
  payload : JwtPayload
deriving DecidableEq

/-- What the token is to a server. -/
def ClientToken.at (token : ClientToken) (url : String) : Jwt :=
  if token.server = url then .signed token.payload else .other

def CredentialKey.Value : CredentialKey → Type
  | .accessToken | .refreshToken => ClientToken
  | .apiKey => ApiKey
  | .username | .serverUrl | .registrationToken => String

abbrev Credentials := (key : CredentialKey) → Option key.Value

structure AuthSession where
  username : String
  accessToken : ClientToken
  refreshToken : ClientToken
  apiKey : ApiKey
  serverUrl : String
deriving DecidableEq

/-- What becomes of a request. -/
inductive Link
  | up
  /-- The request arrives, and its answer is lost. -/
  | silent
  | down
deriving DecidableEq

/-- The machine of a client, and the servers. -/
structure CliHost where
  /-- `time.time()` -/
  clock : Time
  keyring : Credentials
  /-- The keyring has a backend that answers. -/
  keyringWorks : Bool
  /-- `credentials.json`; `none` when it is not there or is not JSON. -/
  file : Option Credentials
  /-- `TANDEM_SERVER_URL`, or else `SERVER_URL`; an empty one is none. -/
  environUrl : Option String
  link : Link
  server : String → AuthState

abbrev Cli := Prog CliHost Unit

namespace Cli

def read {α : Type} (f : CliHost → α) : Cli α := .cmd ⟨fun h ↦ (f h, h), fun _ ↦ []⟩ .ret

def write (f : CliHost → CliHost) : Cli Unit := .cmd ⟨fun h ↦ ((), f h), fun _ ↦ []⟩ .ret

end Cli

/-! ## The keyring and the file -/

/-- `keyring.set_password`; `false` when it raises. -/
def setPassword (key : CredentialKey) (value : key.Value) : Cli Bool :=
  .cmd ⟨fun h ↦ (h.keyringWorks,
    if h.keyringWorks then { h with keyring := Function.update h.keyring key (some value) } else h),
    fun _ ↦ []⟩ .ret

/-- `keyring.get_password`; `none` also when it raises. -/
def getPassword (key : CredentialKey) : Cli (Option key.Value) :=
  Cli.read fun h ↦ if h.keyringWorks then h.keyring key else none

/-- `keyring.delete_password` -/
def deletePassword (key : CredentialKey) : Cli Unit :=
  Cli.write fun h ↦
    if h.keyringWorks then { h with keyring := Function.update h.keyring key none } else h

/-- `_file_set` -/
def fileSet (key : CredentialKey) (value : key.Value) : Cli Unit := do
  let data ← Cli.read (·.file)
  -- what another command has written in between is overwritten
  Cli.write fun h ↦
    { h with file := some (Function.update (data.getD fun _ ↦ none) key (some value)) }

/-- `_file_get` -/
def fileGet (key : CredentialKey) : Cli (Option key.Value) := Cli.read fun h ↦ h.file.bind (· key)

/-- `_file_delete` -/
def fileDelete (key : CredentialKey) : Cli Unit := do
  match ← Cli.read (·.file) with
  | none => return
  | some data => Cli.write fun h ↦ { h with file := some (Function.update data key none) }

/-- `_keyring_set` -/
def keyringSet (key : CredentialKey) (value : key.Value) : Cli Unit := do
  if ← setPassword key value then return else fileSet key value

/-- `_keyring_get` -/
def keyringGet (key : CredentialKey) : Cli (Option key.Value) := do
  match ← getPassword key with
  | some value => return some value
  | none => fileGet key

/-- `_keyring_delete` -/
def keyringDelete (key : CredentialKey) : Cli Unit := do
  deletePassword key
  fileDelete key

/-! ## Server URLs -/

/-- `s.rstrip("/")` -/
def rstripSlash (s : String) : String := String.ofList (s.toList.rdropWhile (· == '/'))

/-- An empty string counts as none. -/
def truthy (s : Option String) : Option String := s.filter (· ≠ "")

/-- `resolve_server_url` -/
def resolveServerUrl (serverUrl : Option String) : Cli String := do
  match truthy serverUrl with
  | some url => return rstripSlash url
  | none =>
    match truthy (← keyringGet .serverUrl) with
    | some url => return rstripSlash url
    | none => return rstripSlash ((← Cli.read (·.environUrl)).getD defaultServerUrl)

/-- `set_stored_server_url`; nothing is saved when it raises. -/
def setStoredServerUrl (serverUrl : String) : Cli Unit := do
  let normalized := rstripSlash (strStrip serverUrl)
  if normalized = "" then return
  else if !normalized.startsWith "http://" ∧ !normalized.startsWith "https://" then return
  else keyringSet .serverUrl normalized

/-- `clear_stored_server_url` -/
def clearStoredServerUrl : Cli Unit := keyringDelete .serverUrl

/-- `set_stored_registration_token`; nothing is saved when it raises. -/
def setStoredRegistrationToken (registrationToken : String) : Cli Unit := do
  let normalized := strStrip registrationToken
  if normalized = "" then return else keyringSet .registrationToken normalized

/-- `clear_stored_registration_token` -/
def clearStoredRegistrationToken : Cli Unit := keyringDelete .registrationToken

/-! ## Sessions -/

/-- `requests.post`: what the server at `url` makes of the request; `none` when there is no answer.
The ids that a server would draw have not been drawn before. -/
def post (url : String) (fresh : AuthState → Bool) (handle : AuthState → AuthReply × AuthState) :
    Cli (Option AuthReply) :=
  .cmd ⟨fun h ↦
    if h.link = .down ∨ fresh (h.server url) = false then (none, h)
    else (if h.link = .up then some (handle (h.server url)).1 else none,
      { h with server := Function.update h.server url (handle (h.server url)).2 }),
    fun _ ↦ []⟩ .ret

instance (s : AuthState) (jti : Name) : Decidable (s.Unused jti) :=
  inferInstanceAs (Decidable (∀ payload ∈ s.signed, payload.jti ≠ jti))

/-- The server draws new ids for a login. -/
def AuthState.freshLogin (s : AuthState) (draws : AuthDraws) : Bool :=
  decide (s.Unused draws.accessJti ∧ s.Unused draws.refreshJti ∧
    draws.accessJti ≠ draws.refreshJti ∧ 0 ≤ draws.elapsed)

theorem AuthState.freshLogin_eq {s : AuthState} {draws : AuthDraws}
    (h : s.freshLogin draws = true) : s.Unused draws.accessJti ∧ s.Unused draws.refreshJti ∧
      draws.accessJti ≠ draws.refreshJti ∧ 0 ≤ draws.elapsed := of_decide_eq_true h

/-- `login_user`; `none` when it raises. -/
def loginUser (check : PasswordCheck) (serverUrl : Option String) (ip username password : String)
    (draws : AuthDraws) : Cli (Option AuthSession) := do
  let url ← resolveServerUrl serverUrl
  match ← post url (·.freshLogin draws) (·.login check ip username password draws) with
  | some (.loggedIn accessToken refreshToken username apiKey) =>
    if username = "" then return none
    else return some ⟨username, ⟨url, accessToken⟩, ⟨url, refreshToken⟩, apiKey, url⟩
  | _ => return none

/-- `refresh_access_token` -/
def refreshAccessToken (serverUrl : Option String) (accessJti : Name) :
    Cli (Option ClientToken) := do
  match ← keyringGet .refreshToken with
  | none => return none
  | some refreshToken =>
    let url ← resolveServerUrl serverUrl
    match ← post url (fun s ↦ decide (s.Unused accessJti))
        (·.refresh (some (refreshToken.at url)) accessJti) with
    | some (.refreshed accessToken) =>
      keyringSet .accessToken ⟨url, accessToken⟩
      return some ⟨url, accessToken⟩
    | _ => return none

/-- `store_auth_session` -/
def storeAuthSession (session : AuthSession) : Cli Unit := do
  keyringSet .serverUrl session.serverUrl
  keyringSet .username session.username
  keyringSet .accessToken session.accessToken
  keyringSet .refreshToken session.refreshToken
  keyringSet .apiKey session.apiKey

/-- The `AuthSession` of what `load_auth_session` has read. -/
def sessionOf (username : Option String) (accessToken refreshToken : Option ClientToken)
    (apiKey : Option ApiKey) (serverUrl : Option String) : Option AuthSession := do
  return ⟨← truthy username, ← accessToken, ← refreshToken, ← apiKey,
    (truthy serverUrl).getD defaultServerUrl⟩

/-- `load_auth_session` -/
def loadAuthSession : Cli (Option AuthSession) := do
  let username ← keyringGet .username
  let accessToken ← keyringGet .accessToken
  let refreshToken ← keyringGet .refreshToken
  let apiKey ← keyringGet .apiKey
  let serverUrl ← keyringGet .serverUrl
  return sessionOf username accessToken refreshToken apiKey serverUrl

/-- The first half of `clear_auth_session`: the request. -/
def revokeStored (serverUrl : Option String) : Cli Unit := do
  match ← keyringGet .refreshToken with
  | none => return
  | some refreshToken =>
    let url ← resolveServerUrl serverUrl
    let _ ← post url (fun _ ↦ true) (·.logout (some (refreshToken.at url)))

/-- `clear_auth_session` -/
def clearAuthSession (serverUrl : Option String) : Cli Unit := do
  revokeStored serverUrl
  forEach [.username, .accessToken, .refreshToken, .apiKey, .serverUrl, .registrationToken]
    keyringDelete

/-- `get_access_token` -/
def getAccessToken (serverUrl : Option String) (accessJti : Name) : Cli (Option ClientToken) := do
  match ← keyringGet .accessToken with
  | none => return none
  | some token =>
    let now ← Cli.read (·.clock)
    -- a token that is about to expire is still used when there is no new one
    if token.payload.exp * second - now < 60 * second then
      match ← refreshAccessToken serverUrl accessJti with
      | some refreshed => return some refreshed
      | none => return some token
    else return some token

/-- `require_auth`; `none` when it raises. -/
def requireAuth (serverUrl : Option String) (accessJti : Name) : Cli (Option AuthSession) := do
  match ← loadAuthSession with
  | none => return none
  | some session =>
    match ← getAccessToken (some ((truthy serverUrl).getD session.serverUrl)) accessJti with
    | some freshToken => return some { session with accessToken := freshToken }
    | none => return some session

/-! ## Runs -/

/-- A command of `tandem`, or of the SDK. -/
inductive CliCommand
  | login (serverUrl : Option String) (ip username password : String) (draws : AuthDraws)
  | logout (serverUrl : Option String)
  | requireAuth (serverUrl : Option String) (accessJti : Name)
  | setServerUrl (serverUrl : String)
  | clearServerUrl
  | setRegistrationToken (registrationToken : String)
  | clearRegistrationToken

namespace CliCommand

def run (check : PasswordCheck) : CliCommand → Cli Unit
  | login serverUrl ip username password draws => do
    match ← loginUser check serverUrl ip username password draws with
    | some session => storeAuthSession session
    | none => return
  | logout serverUrl => clearAuthSession serverUrl
  | requireAuth serverUrl accessJti => do
    let _ ← TandemAio.requireAuth serverUrl accessJti
  | setServerUrl serverUrl => setStoredServerUrl serverUrl
  | clearServerUrl => clearStoredServerUrl
  | setRegistrationToken registrationToken => setStoredRegistrationToken registrationToken
  | clearRegistrationToken => clearStoredRegistrationToken

def isLogin : CliCommand → Bool
  | login .. => true
  | logout _ | requireAuth .. | setServerUrl _ | clearServerUrl | setRegistrationToken _
  | clearRegistrationToken => false

end CliCommand

/-- Nothing else is asked of what the commands see. -/
def cliSight : Sight CliHost Unit Unit := ⟨fun _ _ ↦ (), fun _ _ ↦ False⟩

abbrev CliPool := Pool CliHost Unit Unit Unit

/-- What may change on a machine by itself: anything but the keyring and the servers, and the file
may be lost. -/
structure Ambient (h h' : CliHost) : Prop where
  keyring : h'.keyring = h.keyring
  file : h'.file = h.file ∨ h'.file = none
  server : h'.server = h.server

/-- The machine after a request of anybody. -/
def CliHost.event (check : PasswordCheck) (h : CliHost) (url : String) (e : AuthEvent) : CliHost :=
  { h with server := Function.update h.server url (e.run check (h.server url)).2 }

/-- One step of the commands on a machine, of a server, or of the machine. -/
inductive CliPoolStep (check : PasswordCheck) (allowed : CliCommand → Prop) :
    CliPool → CliPool → Prop
  | start {p : CliPool} (c : CliCommand) : allowed c →
      CliPoolStep check allowed p ⟨p.store, p.threads ++ [⟨c.run check, fun _ _ ↦ True⟩]⟩
  | run {p : CliPool} {i : Nat} {t} : p.threads[i]? = some t →
      CliPoolStep check allowed p (p.schedule cliSight i t)
  /-- A command has ended, or stops where it is. -/
  | stop {p : CliPool} (i : Nat) : CliPoolStep check allowed p ⟨p.store, p.threads.eraseIdx i⟩
  | event {p : CliPool} (url : String) (e : AuthEvent) : (p.store.server url).Possible e →
      CliPoolStep check allowed p ⟨p.store.event check url e, p.threads⟩
  | ambient {p : CliPool} (h : CliHost) : Ambient p.store h →
      CliPoolStep check allowed p ⟨h, p.threads⟩

/-- The runs of a machine on which only allowed commands are started. -/
def CliPoolRun (check : PasswordCheck) (allowed : CliCommand → Prop) : CliPool → CliPool → Prop :=
  Relation.ReflTransGen (CliPoolStep check allowed)

/-! ## What is stored -/

namespace CliHost

/-- A value that one of the servers has given out. -/
def Issued (h : CliHost) : (key : CredentialKey) → key.Value → Prop
  | .username, name => name ≠ ""
  | .accessToken, token =>
    token.payload ∈ (h.server token.server).signed ∧ token.payload.type = .access
  | .refreshToken, token =>
    token.payload ∈ (h.server token.server).signed ∧ token.payload.type = .refresh
  | .apiKey, _ | .serverUrl, _ | .registrationToken, _ => True

/-- Every value is from a server, and there is none for the keys that are gone. -/
def Holds (gone : CredentialKey → Prop) (h : CliHost) (data : Credentials) : Prop :=
  ∀ key value, data key = some value → h.Issued key value ∧ ¬ gone key

structure Sound (gone : CredentialKey → Prop) (h : CliHost) : Prop where
  valid : ∀ url, (h.server url).Valid
  keyring : h.Holds gone h.keyring
  file : ∀ data, h.file = some data → h.Holds gone data

/-- No server forgets what it has signed. -/
def Grows (h h' : CliHost) : Prop :=
  ∀ url, ∀ p ∈ (h.server url).signed, p ∈ (h'.server url).signed

theorem Grows.refl (h : CliHost) : h.Grows h := fun _ _ hp ↦ hp

theorem Grows.trans {h h' h'' : CliHost} (hg : h.Grows h') (hg' : h'.Grows h'') : h.Grows h'' :=
  fun url p hp ↦ hg' url p (hg url p hp)

theorem Issued.grows {h h' : CliHost} {key : CredentialKey} {value : key.Value}
    (hi : h.Issued key value) (hg : h.Grows h') : h'.Issued key value := by
  cases key with
  | accessToken => exact ⟨hg _ _ hi.1, hi.2⟩
  | refreshToken => exact ⟨hg _ _ hi.1, hi.2⟩
  | username | apiKey | serverUrl | registrationToken => exact hi

theorem Holds.grows {gone : CredentialKey → Prop} {h h' : CliHost} {data : Credentials}
    (hd : h.Holds gone data) (hg : h.Grows h') : h'.Holds gone data :=
  fun key value hv ↦ ⟨(hd key value hv).1.grows hg, (hd key value hv).2⟩

theorem Holds.update {gone : CredentialKey → Prop} {h : CliHost} {data : Credentials}
    {key : CredentialKey} {o : Option key.Value} (hd : h.Holds gone data)
    (ho : ∀ value, o = some value → h.Issued key value ∧ ¬ gone key) :
    h.Holds gone (Function.update data key o) := by
  intro k v hv
  by_cases hk : k = key
  · subst hk
    rw [Function.update_self] at hv
    exact ho v hv
  · rw [Function.update_of_ne hk] at hv
    exact hd k v hv

theorem grows_of_server {h h' : CliHost} (hserver : h'.server = h.server) : h.Grows h' := by
  intro url p hp
  rw [hserver]
  exact hp

/-- Where the servers stay, only the values matter. -/
theorem Sound.change {gone : CredentialKey → Prop} {h h' : CliHost} (hs : h.Sound gone)
    (hserver : h'.server = h.server) (hkeyring : h.Holds gone h'.keyring)
    (hfile : ∀ data, h'.file = some data → h.Holds gone data) : h'.Sound gone where
  valid url := by
    rw [hserver]
    exact hs.valid url
  keyring := hkeyring.grows (grows_of_server hserver)
  file data hdata := (hfile data hdata).grows (grows_of_server hserver)

end CliHost

/-- What all commands keep. -/
def credentialContract (gone : CredentialKey → Prop) : Contract cliSight where
  inv := CliHost.Sound gone
  guar := CliHost.Grows
  guar_refl := CliHost.Grows.refl
  guar_trans := CliHost.Grows.trans

section Safe

variable {gone : CredentialKey → Prop} {b : Belief Unit Unit} {h : CliHost} {α β ρ : Type}
  {key : CredentialKey}

/-- `p` is safe, and ends with `R` of its answer. -/
abbrev Gives (gone : CredentialKey → Prop) (p : Cli α) (R : α → CliHost → Prop)
    (h : CliHost) : Prop :=
  ∀ b, (credentialContract gone).Safe p (fun a _ h' ↦ R a h' ∧ h.Grows h') b h

theorem gives_cmd {c : Command CliHost Unit ρ} {R : ρ → CliHost → Prop}
    (hc : ∀ h', h.Grows h' → h'.Sound gone →
      (c.run h').2.Sound gone ∧ h'.Grows (c.run h').2 ∧ R (c.run h').1 (c.run h').2) :
    Gives gone (.cmd c .ret) R h := by
  intro b h' hg hs _
  obtain ⟨hsound, hgrows, hR⟩ := hc h' hg hs
  exact ⟨hsound, hgrows, hR, hg.trans hgrows⟩

theorem gives_pure {a : α} {R : α → CliHost → Prop} (hR : R a h) : Gives gone (pure a) R h :=
  fun _ ↦ ⟨hR, .refl h⟩

theorem Gives.bind {p : Cli α} {f : α → Cli β} {R : α → CliHost → Prop} {R' : β → CliHost → Prop}
    (hp : Gives gone p R h)
    (hf : ∀ a h', R a h' → h.Grows h' → Gives gone (f a) R' h') : Gives gone (p >>= f) R' h := by
  intro b
  refine Contract.safe_monadBind.mpr ((hp b).mono fun a b' h' ha ↦ ?_)
  exact (hf a h' ha.1 ha.2 b').mono fun r _ h'' hr ↦ ⟨hr.1, ha.2.trans hr.2⟩

/-! ### The keyring and the file -/

theorem gives_read {f : CliHost → α} {R : α → CliHost → Prop}
    (hR : ∀ h', h.Grows h' → h'.Sound gone → R (f h') h') : Gives gone (Cli.read f) R h :=
  gives_cmd fun h' hg hs ↦ ⟨hs, .refl h', hR h' hg hs⟩

theorem gives_setPassword {value : key.Value} (hi : h.Issued key value) (hgone : ¬ gone key) :
    Gives gone (setPassword key value) (fun _ _ ↦ True) h := by
  apply gives_cmd
  intro h' hg hs
  dsimp only
  split
  · refine ⟨hs.change rfl (hs.keyring.update fun v hv ↦ ?_) hs.file,
      CliHost.grows_of_server rfl, trivial⟩
    cases hv
    exact ⟨hi.grows hg, hgone⟩
  · exact ⟨hs, .refl h', trivial⟩

theorem gives_getPassword : Gives gone (getPassword key)
    (fun o h' ↦ ∀ value, o = some value → h'.Issued key value ∧ ¬ gone key) h := by
  apply gives_read
  intro h' _ hs value hv
  split at hv
  · exact hs.keyring key value hv
  · cases hv

theorem gives_deletePassword : Gives gone (deletePassword key) (fun _ _ ↦ True) h := by
  apply gives_cmd
  intro h' _ hs
  dsimp only
  split
  · exact ⟨hs.change rfl (hs.keyring.update fun v hv ↦ nomatch hv) hs.file,
      CliHost.grows_of_server rfl, trivial⟩
  · exact ⟨hs, .refl h', trivial⟩

theorem gives_readFile : Gives gone (Cli.read (·.file))
    (fun o h' ↦ ∀ data, o = some data → h'.Holds gone data) h :=
  gives_read fun _ _ hs ↦ hs.file

/-- What is written may have been read some time ago. -/
theorem gives_writeFile {data : Credentials} (hd : h.Holds gone data) :
    Gives gone (Cli.write fun h ↦ { h with file := some data }) (fun _ _ ↦ True) h := by
  apply gives_cmd
  intro h' hg hs
  refine ⟨hs.change rfl hs.keyring fun data' hdata' ↦ ?_, CliHost.grows_of_server rfl, trivial⟩
  cases hdata'
  exact hd.grows hg

theorem gives_fileSet {value : key.Value} (hi : h.Issued key value) (hgone : ¬ gone key) :
    Gives gone (fileSet key value) (fun _ _ ↦ True) h := by
  refine gives_readFile.bind fun data h' hdata hg ↦ gives_writeFile (.update ?_ fun v hv ↦ ?_)
  · cases data with
    | none => exact fun k v hv ↦ nomatch hv
    | some d => exact hdata d rfl
  · cases hv
    exact ⟨hi.grows hg, hgone⟩

theorem gives_fileGet : Gives gone (fileGet key)
    (fun o h' ↦ ∀ value, o = some value → h'.Issued key value ∧ ¬ gone key) h := by
  apply gives_read
  intro h' _ hs value hv
  obtain ⟨data, hdata, hvalue⟩ := Option.bind_eq_some_iff.mp hv
  exact hs.file data hdata key value hvalue

theorem gives_fileDelete : Gives gone (fileDelete key) (fun _ _ ↦ True) h := by
  refine gives_readFile.bind fun data h' hdata hg ↦ ?_
  cases data with
  | none => exact gives_pure trivial
  | some d => exact gives_writeFile ((hdata d rfl).update fun v hv ↦ nomatch hv)

theorem gives_keyringSet (key : CredentialKey) {value : key.Value} (hi : h.Issued key value)
    (hgone : ¬ gone key) :
    Gives gone (keyringSet key value) (fun _ _ ↦ True) h := by
  refine (gives_setPassword hi hgone).bind fun stored h' _ hg ↦ ?_
  split
  · exact gives_pure trivial
  · exact gives_fileSet (hi.grows hg) hgone

theorem gives_keyringGet : Gives gone (keyringGet key)
    (fun o h' ↦ ∀ value, o = some value → h'.Issued key value ∧ ¬ gone key) h := by
  refine gives_getPassword.bind fun o h' ho hg ↦ ?_
  cases o with
  | some value => exact gives_pure fun v hv ↦ ho v hv
  | none => exact gives_fileGet

theorem gives_keyringDelete : Gives gone (keyringDelete key) (fun _ _ ↦ True) h :=
  gives_deletePassword.bind fun _ _ _ _ ↦ gives_fileDelete

/-! ### Requests -/

theorem CliHost.Sound.event {check : PasswordCheck} {url : String} {e : AuthEvent}
    (hs : h.Sound gone) (hpossible : (h.server url).Possible e) :
    (h.event check url e).Sound gone ∧ h.Grows (h.event check url e) := by
  have hadvance := @AuthState.run_advance check _ _ hpossible
  have hgrows : h.Grows (h.event check url e) := by
    intro url' p hp
    show p ∈ (Function.update h.server url _ url').signed
    by_cases hurl : url' = url
    · subst hurl
      rw [Function.update_self]
      exact hadvance.signed p hp
    · rw [Function.update_of_ne hurl]
      exact hp
  refine ⟨⟨fun url' ↦ ?_, hs.keyring.grows hgrows,
    fun data hdata ↦ (hs.file data hdata).grows hgrows⟩, hgrows⟩
  show (Function.update h.server url _ url').Valid
  by_cases hurl : url' = url
  · subst hurl
    rw [Function.update_self]
    exact hadvance.valid (hs.valid _)
  · rw [Function.update_of_ne hurl]
    exact hs.valid url'

/-- A request is an event of the server, and its answer is the server's. -/
theorem gives_post (check : PasswordCheck) (e : AuthEvent) {url : String}
    {fresh : AuthState → Bool} {handle : AuthState → AuthReply × AuthState}
    (he : ∀ s, e.run check s = (some (handle s).1, (handle s).2))
    (hpossible : ∀ h', h.Grows h' → fresh (h'.server url) = true → (h'.server url).Possible e) :
    Gives gone (post url fresh handle) (fun o h' ↦ ∀ r, o = some r →
      ∃ s, fresh s = true ∧ (handle s).1 = r ∧ h'.server url = (handle s).2) h := by
  apply gives_cmd
  intro h' hg hs
  dsimp only
  split
  · exact ⟨hs, .refl h', fun r hr ↦ nomatch hr⟩
  · rename_i hsent
    have hfresh : fresh (h'.server url) = true := by
      by_contra hno
      exact hsent (Or.inr (Bool.eq_false_iff.mpr hno))
    have hevent : h'.event check url e =
        { h' with server := Function.update h'.server url (handle (h'.server url)).2 } := by
      unfold CliHost.event
      rw [he]
    rw [← hevent]
    obtain ⟨hsound, hgrows⟩ := @CliHost.Sound.event _ _ check url e hs (hpossible h' hg hfresh)
    refine ⟨hsound, hgrows, fun r hr ↦ ⟨h'.server url, hfresh, ?_, ?_⟩⟩
    · split at hr
      · exact Option.some.inj hr
      · cases hr
    · rw [hevent]
      exact Function.update_self ..

/-! ### Commands -/

theorem gives_resolveServerUrl (serverUrl : Option String) :
    Gives gone (resolveServerUrl serverUrl) (fun _ _ ↦ True) h := by
  unfold resolveServerUrl
  split
  · exact gives_pure trivial
  · refine gives_keyringGet.bind fun o h' _ _ ↦ ?_
    split
    · exact gives_pure trivial
    · exact (gives_read fun _ _ _ ↦ trivial).bind fun _ _ (_ : True) _ ↦ gives_pure trivial

theorem ClientToken.at_eq_signed {token : ClientToken} {url : String} {p : JwtPayload}
    (hp : token.at url = .signed p) : token.server = url ∧ token.payload = p := by
  unfold ClientToken.at at hp
  split at hp
  · cases hp
    exact ⟨‹_›, rfl⟩
  · cases hp

theorem CliHost.Issued.presents {token : ClientToken} (hi : h.Issued .refreshToken token)
    (url : String) : (h.server url).Presents (some (token.at url)) := by
  intro p hp
  obtain ⟨rfl, rfl⟩ := ClientToken.at_eq_signed (Option.some.inj hp)
  exact hi.1

theorem gives_loginUser {check : PasswordCheck} (serverUrl : Option String)
    (ip username password : String) (draws : AuthDraws) :
    Gives gone (loginUser check serverUrl ip username password draws) (fun o h' ↦
      ∀ session, o = some session → h'.Issued .username session.username ∧
        h'.Issued .accessToken session.accessToken ∧
        h'.Issued .refreshToken session.refreshToken) h := by
  refine (gives_resolveServerUrl serverUrl).bind fun url h' _ _ ↦ ?_
  have hpost := @gives_post gone h' check (.login ip username password draws) url
    (·.freshLogin draws) (·.login check ip username password draws) (fun _ ↦ rfl)
    (fun _ _ hfresh ↦ AuthState.freshLogin_eq hfresh)
  refine hpost.bind fun o h'' ho _ ↦ ?_
  -- only an answer with all four values and a name makes a session
  split
  · rename_i accessToken refreshToken name apiKey
    obtain ⟨s, hfresh, hreply, hserver⟩ := ho _ rfl
    split
    · exact gives_pure fun session hsession ↦ nomatch hsession
    · rename_i hname
      apply gives_pure
      intro session hsession
      cases hsession
      obtain ⟨haccess, haccessType⟩ := AuthState.login_access hreply
      have helapsed : 0 ≤ draws.elapsed := (AuthState.freshLogin_eq hfresh).2.2.2
      obtain ⟨hrefresh, hrefreshType, -⟩ := AuthState.login_issued helapsed hreply
      rw [← hserver] at haccess hrefresh
      exact ⟨hname, ⟨haccess, haccessType⟩, hrefresh, hrefreshType⟩
  · exact gives_pure fun session hsession ↦ nomatch hsession

theorem gives_storeAuthSession {session : AuthSession} (hgone : ∀ key, ¬ gone key)
    (hname : h.Issued .username session.username)
    (haccess : h.Issued .accessToken session.accessToken)
    (hrefresh : h.Issued .refreshToken session.refreshToken) :
    Gives gone (storeAuthSession session) (fun _ _ ↦ True) h := by
  refine (gives_keyringSet .serverUrl trivial (hgone _)).bind fun _ h₁ _ hg₁ ↦ ?_
  refine (gives_keyringSet .username (hname.grows hg₁) (hgone _)).bind fun _ h₂ _ hg₂ ↦ ?_
  have haccess₂ := (haccess.grows hg₁).grows hg₂
  refine (gives_keyringSet .accessToken haccess₂ (hgone _)).bind fun _ h₃ _ hg₃ ↦ ?_
  have hrefresh₃ := ((hrefresh.grows hg₁).grows hg₂).grows hg₃
  refine (gives_keyringSet .refreshToken hrefresh₃ (hgone _)).bind fun _ h₄ _ _ ↦ ?_
  exact gives_keyringSet .apiKey trivial (hgone _)

/-- The refresh token may be from another server than the one that is asked. -/
theorem gives_refreshAccessToken (check : PasswordCheck) (serverUrl : Option String)
    (accessJti : Name) (hgone : ¬ gone .accessToken) :
    Gives gone (refreshAccessToken serverUrl accessJti) (fun _ _ ↦ True) h := by
  refine gives_keyringGet.bind fun o h₁ ho _ ↦ ?_
  cases o with
  | none => exact gives_pure trivial
  | some refreshToken =>
    have hissued := (ho refreshToken rfl).1
    refine (gives_resolveServerUrl serverUrl).bind fun url h₂ _ hg₂ ↦ ?_
    -- the server has kept the token ever since it was read
    have hpost := @gives_post gone h₂ check (.refresh (some (refreshToken.at url)) accessJti) url
      (fun s ↦ decide (s.Unused accessJti)) (·.refresh (some (refreshToken.at url)) accessJti)
      (fun _ ↦ rfl) (fun h₃ hg₃ hfresh ↦
        ⟨CliHost.Issued.presents ((hissued.grows hg₂).grows hg₃) url, of_decide_eq_true hfresh⟩)
    refine hpost.bind fun o h₃ ho _ ↦ ?_
    split
    · rename_i accessToken
      obtain ⟨s, -, hreply, hserver⟩ := ho _ rfl
      have haccess := AuthState.refresh_access hreply
      rw [← hserver] at haccess
      have hnew : h₃.Issued .accessToken ⟨url, accessToken⟩ := haccess
      exact (gives_keyringSet .accessToken hnew hgone).bind
        fun _ _ _ _ ↦ gives_pure trivial
    · exact gives_pure trivial

theorem gives_loadAuthSession : Gives gone loadAuthSession (fun _ _ ↦ True) h := by
  refine gives_keyringGet.bind fun _ _ _ _ ↦ gives_keyringGet.bind fun _ _ _ _ ↦ ?_
  refine gives_keyringGet.bind fun _ _ _ _ ↦ gives_keyringGet.bind fun _ _ _ _ ↦ ?_
  exact gives_keyringGet.bind fun _ _ _ _ ↦ gives_pure trivial

theorem gives_forEach {keys : List CredentialKey} :
    Gives gone (forEach keys keyringDelete) (fun _ _ ↦ True) h := by
  induction keys generalizing h with
  | nil => exact gives_pure trivial
  | cons key keys ih => exact gives_keyringDelete.bind fun _ _ _ _ ↦ ih

theorem gives_revokeStored (check : PasswordCheck) (serverUrl : Option String) :
    Gives gone (revokeStored serverUrl) (fun _ _ ↦ True) h := by
  refine gives_keyringGet.bind fun o h₁ ho _ ↦ ?_
  cases o with
  | none => exact gives_pure trivial
  | some refreshToken =>
    have hissued := (ho refreshToken rfl).1
    refine (gives_resolveServerUrl serverUrl).bind fun url h₂ _ hg₂ ↦ ?_
    have hpost := @gives_post gone h₂ check (.logout (some (refreshToken.at url))) url
      (fun _ ↦ true) (·.logout (some (refreshToken.at url))) (fun _ ↦ rfl)
      (fun h₃ hg₃ _ ↦ CliHost.Issued.presents ((hissued.grows hg₂).grows hg₃) url)
    exact hpost.bind fun _ _ _ _ ↦ gives_pure trivial

theorem gives_clearAuthSession (check : PasswordCheck) (serverUrl : Option String) :
    Gives gone (clearAuthSession serverUrl) (fun _ _ ↦ True) h :=
  (gives_revokeStored check serverUrl).bind fun _ _ _ _ ↦ gives_forEach

theorem gives_getAccessToken (check : PasswordCheck) (serverUrl : Option String)
    (accessJti : Name) : Gives gone (getAccessToken serverUrl accessJti) (fun _ _ ↦ True) h := by
  refine gives_keyringGet.bind fun o h₁ ho _ ↦ ?_
  cases o with
  | none => exact gives_pure trivial
  | some token =>
    have hread : Gives gone (Cli.read (·.clock)) (fun _ _ ↦ True) h₁ :=
      gives_read fun _ _ _ ↦ trivial
    refine hread.bind fun now h₂ _ _ ↦ ?_
    split
    · refine (gives_refreshAccessToken check serverUrl accessJti
        (ho token rfl).2).bind fun o h₃ _ _ ↦ ?_
      split
      · exact gives_pure trivial
      · exact gives_pure trivial
    · exact gives_pure trivial

theorem gives_requireAuth (check : PasswordCheck) (serverUrl : Option String) (accessJti : Name) :
    Gives gone (requireAuth serverUrl accessJti) (fun _ _ ↦ True) h := by
  refine gives_loadAuthSession.bind fun o h₁ _ _ ↦ ?_
  cases o with
  | none => exact gives_pure trivial
  | some session =>
    refine (gives_getAccessToken check _ accessJti).bind fun o h₂ _ _ ↦ ?_
    split
    · exact gives_pure trivial
    · exact gives_pure trivial

/-- Every command is safe; a login only where no key is gone. -/
theorem CliCommand.gives_run {check : PasswordCheck} (c : CliCommand)
    (hlogin : c.isLogin = true → ∀ key, ¬ gone key) (hurl : ¬ gone .serverUrl)
    (htoken : ¬ gone .registrationToken) : Gives gone (c.run check) (fun _ _ ↦ True) h := by
  cases c with
  | login serverUrl ip username password draws =>
    refine (gives_loginUser serverUrl ip username password draws).bind fun o h' ho _ ↦ ?_
    cases o with
    | none => exact gives_pure trivial
    | some session =>
      obtain ⟨hname, haccess, hrefresh⟩ := ho session rfl
      exact gives_storeAuthSession (hlogin rfl) hname haccess hrefresh
  | logout serverUrl => exact gives_clearAuthSession check serverUrl
  | requireAuth serverUrl accessJti =>
    exact (gives_requireAuth check serverUrl accessJti).bind
      fun _ _ _ _ ↦ gives_pure trivial
  | setServerUrl serverUrl =>
    show Gives gone (setStoredServerUrl serverUrl) _ h
    unfold setStoredServerUrl
    dsimp only
    split
    · exact gives_pure trivial
    · split
      · exact gives_pure trivial
      · exact gives_keyringSet .serverUrl trivial hurl
  | clearServerUrl => exact gives_keyringDelete
  | setRegistrationToken registrationToken =>
    show Gives gone (setStoredRegistrationToken registrationToken) _ h
    unfold setStoredRegistrationToken
    dsimp only
    split
    · exact gives_pure trivial
    · exact gives_keyringSet .registrationToken trivial htoken
  | clearRegistrationToken => exact gives_keyringDelete

end Safe

/-! ### Runs -/

theorem upToDate_cliSight (b : Belief Unit Unit) (h h' : CliHost) : cliSight.UpToDate b h h' :=
  fun _ hacts ↦ hacts.elim

section Runs

variable {gone : CredentialKey → Prop} {check : PasswordCheck} {allowed : CliCommand → Prop}
  {h h' : CliHost} {p q : CliPool}

theorem CliHost.Sound.ambient (hs : h.Sound gone) (ha : Ambient h h') :
    h'.Sound gone ∧ h.Grows h' := by
  refine ⟨hs.change ha.server ?_ fun data hdata ↦ ?_, CliHost.grows_of_server ha.server⟩
  · rw [ha.keyring]
    exact hs.keyring
  · rcases ha.file with hsame | hlost
    · exact hs.file data (hsame ▸ hdata)
    · rw [hlost] at hdata
      cases hdata

/-- What the machine and the servers do by themselves leaves the commands safe. -/
theorem poolInv_change (hp : (credentialContract gone).PoolInv p) (hs : h.Sound gone)
    (hg : p.store.Grows h) : (credentialContract gone).PoolInv ⟨h, p.threads⟩ where
  inv := hs
  threads t ht := by
    obtain ⟨h₀, hg₀, hsafe⟩ := hp.threads t ht
    exact ⟨h₀, hg₀.trans hg, hsafe⟩

theorem CliPoolStep.poolInv (hstep : CliPoolStep check allowed p q)
    (hallowed : ∀ c, allowed c → c.isLogin = true → ∀ key, ¬ gone key)
    (hurl : ¬ gone .serverUrl) (htoken : ¬ gone .registrationToken)
    (hp : (credentialContract gone).PoolInv p) : (credentialContract gone).PoolInv q := by
  cases hstep with
  | start c hc =>
    refine ⟨hp.inv, fun t ht ↦ ?_⟩
    rcases List.mem_append.mp ht with ht | ht
    · exact hp.threads t ht
    · rw [List.mem_singleton.mp ht]
      have hsafe : Gives gone (c.run check) (fun _ _ ↦ True) p.store :=
        c.gives_run (hallowed c hc) hurl htoken
      exact ⟨p.store, .refl _, (hsafe _).mono fun _ _ _ _ ↦ trivial⟩
  | @run i t ht =>
    -- commands start no other commands
    have hnone : (credentialContract gone).Admits
        (fun (_ : CliHost) (_ : Thread CliHost Unit Unit Unit) ↦ False) :=
      fun _ _ hspawn _ ↦ hspawn.elim
    exact (hp.step hnone (.run ht) fun _ _ ↦ upToDate_cliSight _ _ _).1
  | stop i => exact ⟨hp.inv, fun t ht ↦ hp.threads t (List.mem_of_mem_eraseIdx ht)⟩
  | event url e hpossible =>
    obtain ⟨hs, hg⟩ := @CliHost.Sound.event gone p.store check url e hp.inv hpossible
    exact poolInv_change hp hs hg
  | ambient h' ha =>
    obtain ⟨hs, hg⟩ := CliHost.Sound.ambient hp.inv ha
    exact poolInv_change hp hs hg

theorem CliPoolRun.poolInv (hr : CliPoolRun check allowed p q)
    (hallowed : ∀ c, allowed c → c.isLogin = true → ∀ key, ¬ gone key)
    (hurl : ¬ gone .serverUrl) (htoken : ¬ gone .registrationToken)
    (hp : (credentialContract gone).PoolInv p) : (credentialContract gone).PoolInv q := by
  induction hr with
  | refl => exact hp
  | tail _ hstep ih => exact hstep.poolInv hallowed hurl htoken ih

/-- Any schedule of the commands that are under way is a run. -/
theorem cliRun_runs (p : CliPool) (schedule : List Nat) :
    CliPoolRun check allowed p (p.runs cliSight schedule) := by
  induction schedule generalizing p with
  | nil => exact .refl
  | cons i rest ih =>
    unfold Pool.runs
    split
    · rename_i t ht
      exact .head (.run ht) (ih _)
    · exact ih p

end Runs

/-- Nothing is stored, and the servers have signed nothing. -/
structure CliHost.Fresh (h : CliHost) : Prop where
  keyring : ∀ key, h.keyring key = none
  file : h.file = none
  signed : ∀ url, (h.server url).signed = []

theorem CliHost.Fresh.sound {h : CliHost} (hf : h.Fresh) : h.Sound fun _ ↦ False where
  valid url := by
    refine ⟨fun p hp ↦ ?_, ?_⟩
    · rw [hf.signed] at hp
      cases hp
    · rw [hf.signed]
      exact List.nodup_nil
  keyring key value hv := by
    rw [hf.keyring] at hv
    cases hv
  file data hdata := by
    rw [hf.file] at hdata
    cases hdata

/-- In every run of any commands what is stored is from the servers. -/
theorem CliPoolRun.sound {check : PasswordCheck} {allowed : CliCommand → Prop} {h : CliHost}
    {p : CliPool} (hf : h.Fresh) (hr : CliPoolRun check allowed ⟨h, []⟩ p) :
    p.store.Sound fun _ ↦ False :=
  (hr.poolInv (fun _ _ _ _ ↦ id) id id ⟨hf.sound, fun _ ht ↦ nomatch ht⟩).inv

/-! ## Reading -/

namespace CliHost

variable {h : CliHost} {key : CredentialKey}

/-- What `_keyring_get` finds. -/
def get (h : CliHost) (key : CredentialKey) : Option key.Value :=
  (if h.keyringWorks then h.keyring key else none).or (h.file.bind (· key))

/-- What `load_auth_session` finds. -/
def session (h : CliHost) : Option AuthSession :=
  sessionOf (h.get .username) (h.get .accessToken) (h.get .refreshToken) (h.get .apiKey)
    (h.get .serverUrl)

theorem truthy_eq_some {o : Option String} {s : String} :
    truthy o = some s ↔ o = some s ∧ s ≠ "" := by
  unfold truthy
  rw [Option.filter_eq_some_iff, decide_eq_true_iff]

/-- A session needs a name that is not empty, both tokens and the key. -/
theorem sessionOf_eq_some {username : Option String} {accessToken refreshToken : Option ClientToken}
    {apiKey : Option ApiKey} {serverUrl : Option String} {s : AuthSession} :
    sessionOf username accessToken refreshToken apiKey serverUrl = some s ↔
      (username = some s.username ∧ s.username ≠ "") ∧ accessToken = some s.accessToken ∧
      refreshToken = some s.refreshToken ∧ apiKey = some s.apiKey ∧
      s.serverUrl = (truthy serverUrl).getD defaultServerUrl := by
  unfold sessionOf
  simp only [Option.bind_eq_bind, Option.bind_eq_some_iff, truthy_eq_some, Option.pure_def,
    Option.some.injEq]
  constructor
  · rintro ⟨name, hname, access, haccess, refresh, hrefresh, key, hkey, rfl⟩
    exact ⟨hname, haccess, hrefresh, hkey, rfl⟩
  · rintro ⟨hname, haccess, hrefresh, hkey, hurl⟩
    refine ⟨_, hname, _, haccess, _, hrefresh, _, hkey, ?_⟩
    rw [← hurl]

theorem wp_cliRead {α : Type} (f : CliHost → α) (Q : α → CliHost → Prop) :
    wp (Cli.read f) Q h ↔ Q (f h) h := by
  rw [Cli.read, wp_cmd, wp_ret]

theorem wp_cliWrite (f : CliHost → CliHost) (Q : Unit → CliHost → Prop) :
    wp (Cli.write f) Q h ↔ Q () (f h) := by
  rw [Cli.write, wp_cmd, wp_ret]

theorem wp_keyringGet (Q : Option key.Value → CliHost → Prop) :
    wp (keyringGet key) Q h ↔ Q (h.get key) h := by
  unfold keyringGet getPassword fileGet CliHost.get
  rw [wp_bind, wp_cliRead]
  split
  · rename_i value hvalue
    rw [wp_pure, hvalue]
    rfl
  · rename_i hnone
    rw [wp_cliRead, hnone]
    rfl

theorem wp_loadAuthSession (Q : Option AuthSession → CliHost → Prop) :
    wp loadAuthSession Q h ↔ Q h.session h := by
  unfold loadAuthSession
  simp only [wp_bind, wp_keyringGet, wp_pure]
  rfl

theorem wp_resolveServerUrl (serverUrl : Option String) :
    wp (resolveServerUrl serverUrl) (fun url h' ↦ h' = h ∧
      ∀ given, truthy serverUrl = some given → url = rstripSlash given) h := by
  unfold resolveServerUrl
  split
  · rename_i url hurl
    rw [wp_pure]
    refine ⟨rfl, fun given hgiven ↦ ?_⟩
    rw [hurl] at hgiven
    rw [Option.some.inj hgiven]
  · rename_i hnone
    have hnever : ∀ url given, truthy serverUrl = some given → url = rstripSlash given := by
      intro url given hgiven
      rw [hnone] at hgiven
      cases hgiven
    rw [wp_bind, wp_keyringGet]
    split
    · rw [wp_pure]
      exact ⟨rfl, hnever _⟩
    · rw [wp_bind, wp_cliRead, wp_pure]
      exact ⟨rfl, hnever _⟩

/-- Storing a value is no matter of the servers. -/
theorem wp_keyringSet (value : key.Value) : wp (keyringSet key value) (fun _ h' ↦
    h'.server = h.server) h := by
  unfold keyringSet setPassword
  rw [wp_bind, wp_cmd, wp_ret]
  dsimp only
  split
  · rw [wp_pure]
  · unfold fileSet
    rw [wp_bind, wp_cliRead, wp_cliWrite]

/-- The machine without what is stored under a key, as far as it can be reached. -/
@[simps] def erase (h : CliHost) (key : CredentialKey) : CliHost :=
  { h with
    keyring := if h.keyringWorks then Function.update h.keyring key none else h.keyring
    file := h.file.map (Function.update · key none) }

theorem wp_keyringDelete : wp (keyringDelete key) (fun _ h' ↦ h' = h.erase key) h := by
  unfold keyringDelete deletePassword fileDelete
  rw [wp_bind, wp_cliWrite, wp_bind, wp_cliRead]
  obtain ⟨clock, keyring, works, file, environUrl, link, server⟩ := h
  -- the keyring may not be reached, and the file may not be there
  cases file with
  | none =>
    cases works <;>
    · refine (wp_ret () _ _).mpr ?_
      rfl
  | some data =>
    cases works <;>
    · refine (wp_cliWrite _ _).mpr ?_
      rfl

/-- The file has nothing under the key. -/
def FileLacks (h : CliHost) (key : CredentialKey) : Prop :=
  ∀ data, h.file = some data → data key = none

/-- What deleting keys leaves of what is stored. -/
structure Erased (keys : List CredentialKey) (h h' : CliHost) : Prop where
  works : h'.keyringWorks = h.keyringWorks
  reached : h.keyringWorks = true → ∀ key, key ∈ keys ∨ h.keyring key = none →
    h'.keyring key = none
  kept : h.keyringWorks = false → h'.keyring = h.keyring
  file : ∀ key, key ∈ keys ∨ h.FileLacks key → h'.FileLacks key

theorem wp_forEach_keyringDelete (keys : List CredentialKey) :
    wp (forEach keys keyringDelete) (fun _ h' ↦ Erased keys h h') h := by
  -- a key that is gone stays gone while the rest is deleted
  induction keys generalizing h with
  | nil =>
    rw [forEach, wp_ret]
    refine ⟨rfl, fun _ key hkey ↦ ?_, fun _ ↦ rfl, fun key hkey ↦ ?_⟩
    · exact hkey.resolve_left List.not_mem_nil
    · exact hkey.resolve_left List.not_mem_nil
  | cons key keys ih =>
    rw [forEach, wp_bind']
    refine wp_keyringDelete.mono fun _ h₁ h₁_eq ↦ ?_
    subst h₁_eq
    refine ih.mono fun _ h' herased ↦ ⟨herased.works, fun hworks k hk ↦ ?_, fun hworks ↦ ?_,
      fun k hk ↦ ?_⟩
    · apply herased.reached hworks k
      rw [erase_keyring, if_pos hworks]
      by_cases hsame : k = key
      · subst hsame
        exact Or.inr (Function.update_self ..)
      · rw [Function.update_of_ne hsame]
        exact hk.imp_left fun hin ↦ (List.mem_cons.mp hin).resolve_left hsame
    · have hdown : ¬ h.keyringWorks = true := by simp [hworks]
      rw [herased.kept hworks]
      exact if_neg hdown
    · apply herased.file k
      by_cases hsame : k = key
      · subst hsame
        refine Or.inr fun data hdata ↦ ?_
        rw [erase_file, Option.map_eq_some_iff] at hdata
        obtain ⟨data', -, rfl⟩ := hdata
        exact Function.update_self ..
      · refine hk.imp (fun hin ↦ (List.mem_cons.mp hin).resolve_left hsame) fun hlacks ↦ ?_
        intro data hdata
        rw [erase_file, Option.map_eq_some_iff] at hdata
        obtain ⟨data', hdata', rfl⟩ := hdata
        rw [Function.update_of_ne hsame]
        exact hlacks data' hdata'

theorem Erased.of_same {keys : List CredentialKey} {h h₁ h' : CliHost} (he : Erased keys h₁ h')
    (hworks : h₁.keyringWorks = h.keyringWorks) (hkeyring : h₁.keyring = h.keyring)
    (hfile : h₁.file = h.file) : Erased keys h h' := by
  obtain ⟨hw, hreached, hkept, hlacks⟩ := he
  unfold FileLacks at hlacks
  rw [hworks, hkeyring] at hreached hkept
  rw [hfile] at hlacks
  exact ⟨hw.trans hworks, hreached, hkept, hlacks⟩

/-- The request of a logout touches nothing that is stored. -/
theorem wp_revokeStored (serverUrl : Option String) : wp (revokeStored serverUrl) (fun _ h' ↦
    h'.keyringWorks = h.keyringWorks ∧ h'.keyring = h.keyring ∧ h'.file = h.file) h := by
  unfold revokeStored
  rw [wp_bind, wp_keyringGet]
  split
  · rw [wp_pure]
    exact ⟨rfl, rfl, rfl⟩
  · rw [wp_bind]
    refine (wp_resolveServerUrl serverUrl).mono fun url h₁ hsame ↦ ?_
    rw [hsame.1]
    unfold post
    rw [wp_bind, wp_cmd, wp_ret, wp_pure]
    dsimp only
    split
    · exact ⟨rfl, rfl, rfl⟩
    · exact ⟨rfl, rfl, rfl⟩

theorem wp_clearAuthSession (serverUrl : Option String) : wp (clearAuthSession serverUrl)
    (fun _ h' ↦ Erased [.username, .accessToken, .refreshToken, .apiKey, .serverUrl,
      .registrationToken] h h') h := by
  unfold clearAuthSession
  rw [wp_bind]
  refine (wp_revokeStored serverUrl).mono fun _ h₁ hsame ↦ ?_
  refine (wp_forEach_keyringDelete _).mono fun _ h' he ↦ ?_
  exact he.of_same hsame.1 hsame.2.1 hsame.2.2

end CliHost

/-! ## Logging out -/

/-- What `load_auth_session` needs. -/
def sessionKeys : List CredentialKey := [.username, .accessToken, .refreshToken, .apiKey]

namespace CliHost

variable {gone : CredentialKey → Prop} {h : CliHost} {key : CredentialKey}

theorem Sound.get (hs : h.Sound gone) {value : key.Value} (hv : h.get key = some value) :
    h.Issued key value ∧ ¬ gone key := by
  rcases Option.or_eq_some_iff.mp hv with hkeyring | ⟨-, hfile⟩
  · split at hkeyring
    · exact hs.keyring key value hkeyring
    · cases hkeyring
  · obtain ⟨data, hdata, hvalue⟩ := Option.bind_eq_some_iff.mp hfile
    exact hs.file data hdata key value hvalue

/-- A key that is stored nowhere is gone. -/
theorem Sound.lacking (hs : h.Sound gone) (hkeyring : h.keyring key = none)
    (hfile : h.FileLacks key) : h.Sound (· = key) where
  valid := hs.valid
  keyring k v hv := by
    refine ⟨(hs.keyring k v hv).1, fun hk ↦ ?_⟩
    subst hk
    rw [hkeyring] at hv
    cases hv
  file data hdata k v hv := by
    refine ⟨(hs.file data hdata k v hv).1, fun hk ↦ ?_⟩
    subst hk
    rw [hfile data hdata] at hv
    cases hv

/-- Without one of the keys there is no session. -/
theorem Sound.session_none (hs : h.Sound gone) (hkey : key ∈ sessionKeys) (hgone : gone key) :
    h.session = none := by
  rw [Option.eq_none_iff_forall_not_mem]
  intro s hsession
  obtain ⟨⟨hname, -⟩, haccess, hrefresh, hapi, -⟩ := CliHost.sessionOf_eq_some.mp hsession
  simp only [sessionKeys, List.mem_cons, List.not_mem_nil, or_false] at hkey
  rcases hkey with rfl | rfl | rfl | rfl
  · exact (hs.get hname).2 hgone
  · exact (hs.get haccess).2 hgone
  · exact (hs.get hrefresh).2 hgone
  · exact (hs.get hapi).2 hgone

/-- A keyring with everything makes a session once it works. -/
theorem Sound.session_some (hs : h.Sound gone) (hworks : h.keyringWorks = true)
    (hall : ∀ key ∈ sessionKeys, h.keyring key ≠ none) : h.session ≠ none := by
  have hget : ∀ key ∈ sessionKeys, ∃ value, h.get key = some value := by
    intro key hkey
    obtain ⟨value, hvalue⟩ := Option.ne_none_iff_exists'.mp (hall key hkey)
    refine ⟨value, ?_⟩
    unfold CliHost.get
    rw [if_pos hworks, hvalue, Option.some_or]
  obtain ⟨name, hname⟩ := hget .username (by decide)
  obtain ⟨access, haccess⟩ := hget .accessToken (by decide)
  obtain ⟨refresh, hrefresh⟩ := hget .refreshToken (by decide)
  obtain ⟨apiKey, hapi⟩ := hget .apiKey (by decide)
  have hsession : h.session = some ⟨name, access, refresh, apiKey,
      (truthy (h.get .serverUrl)).getD defaultServerUrl⟩ :=
    sessionOf_eq_some.mpr ⟨⟨hname, (hs.get hname).1⟩, haccess, hrefresh, hapi, rfl⟩
  rw [hsession]
  exact Option.some_ne_none _

end CliHost

/-- After a logout that ran to its end, whatever commands other than a login run at a time and
wherever they stop, the client has no session, if and only if the keyring could be reached by the
logout or did not hold a whole session. -/
theorem logout_final_iff {check : PasswordCheck} {h₀ h' : CliHost} {p : CliPool}
    (hfresh : h₀.Fresh) (hbefore : CliPoolRun check (fun _ ↦ True) ⟨h₀, []⟩ p)
    {serverUrl : Option String} (hlogout : Runs (clearAuthSession serverUrl) p.store () h') :
    (∀ q, CliPoolRun check (fun c ↦ c.isLogin = false) ⟨h', []⟩ q → q.store.session = none) ↔
      p.store.keyringWorks = true ∨ ∃ key ∈ sessionKeys, p.store.keyring key = none := by
  have hsound := hbefore.sound hfresh
  have herased := (CliHost.wp_clearAuthSession serverUrl).elim hlogout
  have hsound' : h'.Sound fun _ ↦ False :=
    ((gives_clearAuthSession check serverUrl (fun _ _ ↦ True)).runs upToDate_cliSight hsound
      hlogout).1
  have hkeys : ∀ key ∈ sessionKeys, h'.FileLacks key := by
    intro key hkey
    apply herased.file key (Or.inl _)
    revert hkey
    revert key
    decide
  constructor
  · intro hall
    by_contra hno
    rw [not_or] at hno
    have hdown : p.store.keyringWorks = false := Bool.eq_false_iff.mpr hno.1
    -- the keyring comes back with everything in it
    have hback : Ambient h' { h' with keyringWorks := true } := ⟨rfl, Or.inl rfl, rfl⟩
    have hnone := hall ⟨{ h' with keyringWorks := true }, []⟩ (.single (.ambient _ hback))
    apply (hsound'.ambient hback).1.session_some rfl _ hnone
    intro key hkey hnone
    apply hno.2
    refine ⟨key, hkey, ?_⟩
    rw [← herased.kept hdown]
    exact hnone
  · intro hor q hq
    have hgone : ∃ key ∈ sessionKeys, h'.keyring key = none := by
      rcases hor with hworks | ⟨key, hkey, hnone⟩
      · exact ⟨.username, by decide, herased.reached hworks .username (Or.inl (by decide))⟩
      · refine ⟨key, hkey, ?_⟩
        by_cases hworks : p.store.keyringWorks = true
        · exact herased.reached hworks key (Or.inr hnone)
        · rw [herased.kept (Bool.eq_false_iff.mpr hworks)]
          exact hnone
    obtain ⟨key, hkey, hnone⟩ := hgone
    -- only a login stores such a key again
    have hstart : h'.Sound (· = key) := hsound'.lacking hnone (hkeys key hkey)
    have hinv := CliPoolRun.poolInv hq (fun c hc hlogin ↦ absurd (hc.symm.trans hlogin) (by decide))
      (by rintro rfl; revert hkey; decide) (by rintro rfl; revert hkey; decide)
      ⟨hstart, fun _ ht ↦ nomatch ht⟩
    exact CliHost.Sound.session_none hinv.inv hkey rfl

namespace Sample

/-- A machine on which nothing is stored. -/
def freshHost : CliHost where
  clock := 0
  keyring := fun _ ↦ none
  keyringWorks := true
  file := none
  environUrl := none
  link := .up
  server := fun _ ↦ authState 7

theorem freshHost_fresh : freshHost.Fresh := ⟨fun _ ↦ rfl, rfl, fun _ ↦ rfl⟩

def loginAnn : CliCommand := .login none "192.0.2.1" "ann" "secret" draws

/-- The machine once the login has ended. -/
def loggedInPool : CliPool :=
  (⟨freshHost, [⟨loginAnn.run acceptPassword, fun _ _ ↦ True⟩]⟩ : CliPool).runs cliSight
    (List.replicate 12 0)

theorem loggedInPool_run : CliPoolRun acceptPassword (fun _ ↦ True) ⟨freshHost, []⟩ loggedInPool :=
  .head (.start loginAnn trivial) (cliRun_runs _ _)

end Sample

open Sample in
theorem logout_final_ann : ∃ h', Runs (clearAuthSession none) loggedInPool.store () h' ∧
    ∀ q, CliPoolRun acceptPassword (fun c ↦ c.isLogin = false) ⟨h', []⟩ q →
      q.store.session = none := by
  obtain ⟨_, h', hlogout, -⟩ := CliHost.wp_clearAuthSession (h := loggedInPool.store) none
  exact ⟨h', hlogout, (logout_final_iff freshHost_fresh loggedInPool_run hlogout).mpr
    (Or.inl (by decide +kernel))⟩

/-! ## Access -/

/-- The server takes the token for a user, for the time. -/
def AuthState.Accepts (s : AuthState) (jwt : Jwt) (ttl : Time) : Prop :=
  ∀ now, s.clock ≤ now → now < s.clock + ttl →
    ∃ user, ({ s with clock := now } : AuthState).requireJwt (some jwt) = .ok user

theorem AuthState.accepts_of {s : AuthState} {payload : JwtPayload} {ttl : Time}
    (hiat : payload.iat * second ≤ s.clock) (hexp : s.clock + ttl ≤ payload.exp * second)
    (htype : payload.type = .access) (huser : ∃ user ∈ s.accounts.users, user.id = payload.sub) :
    s.Accepts (.signed payload) ttl := by
  intro now hnow hlate
  have hsome : (s.accounts.users.find? (·.id = payload.sub)).isSome := by
    rw [List.find?_isSome]
    obtain ⟨user, hmem, hid⟩ := huser
    exact ⟨user, hmem, decide_eq_true hid⟩
  obtain ⟨user, hfind⟩ := Option.isSome_iff_exists.mp hsome
  refine ⟨user, requireJwt_eq_ok.mpr ⟨payload, rfl, ?_, ?_, htype, hfind⟩⟩
  · exact le_trans hiat hnow
  · exact lt_of_lt_of_le hlate hexp

/-- With a live session `refresh_access_token` comes back with a new token, good for fifteen
minutes but for the second that is cut off. -/
theorem wp_refreshAccessToken {h : CliHost} {serverUrl : Option String} {url : String}
    {refreshToken : ClientToken} {accessJti : Name} {granted : String}
    (hurl : truthy serverUrl = some granted) (hgranted : url = rstripSlash granted)
    (hget : h.get .refreshToken = some refreshToken) (hserver : refreshToken.server = url)
    (hlink : h.link = .up) (hunused : (h.server url).Unused accessJti)
    (hlive : (h.server url).Refreshes refreshToken.payload accessJti) :
    wp (refreshAccessToken serverUrl accessJti) (fun o h' ↦ ∃ token, o = some token ∧
      token.server = url ∧ (h'.server url).Accepts (token.at url)
        (accessTokenTtlSeconds - second)) h := by
  unfold refreshAccessToken
  rw [wp_bind, CliHost.wp_keyringGet, hget]
  dsimp only
  rw [wp_bind]
  refine (CliHost.wp_resolveServerUrl serverUrl).mono fun resolved h₁ hsame ↦ ?_
  obtain ⟨rfl, hresolved⟩ := hsame
  obtain rfl : resolved = url := by rw [hresolved granted hurl, hgranted]
  have hat : refreshToken.at resolved = .signed refreshToken.payload := if_pos hserver
  obtain ⟨payload, user, -, -, -, hmem, hid, hissued⟩ :=
    (AuthState.refresh_cases (some (.signed refreshToken.payload)) accessJti).resolve_left (by
      intro herror
      obtain ⟨status, message, herror⟩ := herror
      obtain ⟨token, htoken⟩ := hlive
      rw [herror] at htoken
      cases htoken)
  have hsent : ¬ (h₁.link = .down ∨
      decide ((h₁.server resolved).Unused accessJti) = false) := by
    rw [hlink, decide_eq_true hunused]
    decide
  unfold post
  rw [wp_bind, wp_cmd, wp_ret]
  dsimp only
  rw [if_neg hsent, if_pos hlink, hat, hissued]
  dsimp only
  rw [wp_bind]
  refine (CliHost.wp_keyringSet _).mono fun _ h₂ hstored ↦ ?_
  rw [wp_pure]
  refine ⟨_, rfl, rfl, ?_⟩
  rw [hstored]
  dsimp only
  rw [Function.update_self]
  show AuthState.Accepts _ (if resolved = resolved then _ else _) _
  rw [if_pos rfl]
  refine AuthState.accepts_of (AuthState.floor_second _) ?_ rfl ⟨user, hmem, rfl⟩
  -- the expiry of the new token is cut to whole seconds
  have hceil : (h₁.server resolved).clock + accessTokenTtlSeconds <
      (((h₁.server resolved).clock + accessTokenTtlSeconds) / second + 1) * second :=
    Int.lt_ediv_add_one_mul_self _ (by decide)
  have hadd : (((h₁.server resolved).clock + accessTokenTtlSeconds) / second + 1) * second =
      ((h₁.server resolved).clock + accessTokenTtlSeconds) / second * second + second := by ring
  rw [hadd] at hceil
  show (h₁.server resolved).clock + (accessTokenTtlSeconds - second) ≤
    ((h₁.server resolved).clock + accessTokenTtlSeconds) / second * second
  linarith

/-- A client with a live session, the clock of which is no more than `skew` behind that of the
server, gets from `require_auth` an access token that the server takes for another minute less the
skew. -/
theorem require_auth_accepted {check : PasswordCheck} {h₀ : CliHost} {p : CliPool}
    (hfresh : h₀.Fresh) (hbefore : CliPoolRun check (fun _ ↦ True) ⟨h₀, []⟩ p)
    {session : AuthSession} {url : String} {skew : Time} {accessJti : Name}
    (hsession : p.store.session = some session) (hurl : url = rstripSlash session.serverUrl)
    (haccess : session.accessToken.server = url) (hrefresh : session.refreshToken.server = url)
    (huser : ∃ user ∈ (p.store.server url).accounts.users,
      user.id = session.accessToken.payload.sub)
    (hlive : (p.store.server url).Refreshes session.refreshToken.payload accessJti)
    (hunused : (p.store.server url).Unused accessJti) (hlink : p.store.link = .up)
    (hskew : 0 ≤ skew) (hclock : (p.store.server url).clock ≤ p.store.clock + skew) :
    wp (requireAuth none accessJti) (fun o h' ↦ ∃ session', o = some session' ∧
      (h'.server url).Accepts (session'.accessToken.at url) (60 * second - skew)) p.store := by
  have hsound := hbefore.sound hfresh
  obtain ⟨-, hgetAccess, hgetRefresh, -, hserver⟩ := CliHost.sessionOf_eq_some.mp hsession
  have htruthy : truthy (some session.serverUrl) = some session.serverUrl := by
    refine CliHost.truthy_eq_some.mpr ⟨rfl, ?_⟩
    rw [hserver]
    cases hstored : truthy (p.store.get .serverUrl) with
    | none => decide
    | some stored => exact (CliHost.truthy_eq_some.mp hstored).2
  unfold requireAuth
  rw [wp_bind, CliHost.wp_loadAuthSession, hsession]
  dsimp only
  rw [wp_bind]
  unfold getAccessToken
  rw [wp_bind, CliHost.wp_keyringGet, hgetAccess]
  dsimp only
  rw [wp_bind, CliHost.wp_cliRead]
  split
  · rw [wp_bind]
    refine (wp_refreshAccessToken htruthy hurl hgetRefresh hrefresh hlink hunused hlive).mono
      fun o h' ho ↦ ?_
    obtain ⟨token, rfl, -, haccepts⟩ := ho
    dsimp only
    rw [wp_pure]
    dsimp only
    rw [wp_pure]
    -- a new token lasts longer than the minute
    refine ⟨_, rfl, fun now hnow hlate ↦ haccepts now hnow (lt_of_lt_of_le hlate ?_)⟩
    apply Int.add_le_add_left
    have hminute : (60 : Int) * second ≤ accessTokenTtlSeconds - second := by decide
    linarith
  · rename_i hfar
    rw [wp_pure]
    dsimp only
    rw [wp_pure]
    refine ⟨_, rfl, ?_⟩
    -- the stored token is from the server, which is ahead of the client by the skew at most
    obtain ⟨⟨hsigned, htype⟩, -⟩ := hsound.get hgetAccess
    rw [haccess] at hsigned
    have hat : session.accessToken.at url = .signed session.accessToken.payload := if_pos haccess
    rw [hat]
    refine AuthState.accepts_of ((hsound.valid url).iat _ hsigned) ?_ htype huser
    linarith [not_lt.mp hfar]

namespace Sample

def sessionAnn : AuthSession where
  username := "ann"
  accessToken := ⟨defaultServerUrl, accessToken 7⟩
  refreshToken := ⟨defaultServerUrl, refreshToken 7⟩
  apiKey := oldKey
  serverUrl := defaultServerUrl

end Sample

open Sample in
theorem require_auth_accepted_ann : wp (requireAuth none ⟨"a2", by decide⟩) (fun o h' ↦
    ∃ session', o = some session' ∧ (h'.server defaultServerUrl).Accepts
      (session'.accessToken.at defaultServerUrl) (60 * second - 0)) loggedInPool.store := by
  have hsession : loggedInPool.store.session = some sessionAnn := by decide +kernel
  have hlive : (loggedInPool.store.server defaultServerUrl).Refreshes (refreshToken 7)
      ⟨"a2", by decide⟩ := ⟨⟨7, "ann", .access, ⟨"a2", by decide⟩, 0, 900⟩, by decide +kernel⟩
  exact require_auth_accepted freshHost_fresh loggedInPool_run hsession (by decide +kernel) rfl rfl
    ⟨⟨7, "ann", "hash"⟩, by decide +kernel, rfl⟩ hlive (by decide +kernel) (by decide +kernel)
    (le_refl 0) (by decide +kernel)

end TandemAio
