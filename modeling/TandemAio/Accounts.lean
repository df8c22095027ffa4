import TandemAio.Store
import TandemAio.Filenames

/-!
# `app/blueprints/api.py` and `app/utils/auth.py`: API keys and deployments

Whose key opens which deployment, and what a login does to the keys.
-/

namespace TandemAio

/-- A row of `users`. -/
structure User where
  id : Int
  username : String
  /-- The password hash; `""` when there is none. -/
  password : String
deriving DecidableEq

/-- A row of `user_api_rel`. -/
structure UserApi where
  userId : Int
  apiKey : ApiKey
deriving DecidableEq

/-- The tables, with the rows of each in the order of their ids.  `api_key` is `UNIQUE`. -/
structure Accounts where
  users : List User
  userApi : List UserApi
  unique : (userApi.map UserApi.apiKey).Nodup
  deployment : Pid → Option Deployment

/-- `check_password_hash` -/
abbrev PasswordCheck := String → String → Bool

/-- `ensure_deployment_access`, for a client of the user `userId`, by the status and the text of its
error. -/
def ensureDeploymentAccess {U : Type} [DecidableEq U] (owner : ApiKey → Option U) (userId : U)
    (deployment : Deployment) : Option (Nat × String) :=
  match deployment.apiKey with
  | none => some (409, "Deployment is not associated with an API key. " ++
      "Redeploy it with an authenticated /deploy request.")
  | some deploymentApiKey =>
    match owner deploymentApiKey with
    | none => some (403, "Deployment owner could not be resolved")
    | some ownerId =>
      if ownerId ≠ userId then some (403, "API key does not have access to this deployment")
      else none

/-- A client of the user is let in. -/
theorem ensureDeploymentAccess_eq_none {U : Type} [DecidableEq U] {owner : ApiKey → Option U}
    {userId : U} {deployment : Deployment} :
    ensureDeploymentAccess owner userId deployment = none ↔
      ∃ apiKey, deployment.apiKey = some apiKey ∧ owner apiKey = some userId := by
  unfold ensureDeploymentAccess
  cases hkey : deployment.apiKey with
  | none => simp
  | some apiKey =>
    cases howner : owner apiKey with
    | none => simp [howner]
    | some ownerId =>
      by_cases hsame : ownerId = userId
      · simp [howner, hsame]
      · simp [howner, hsame]

namespace Accounts

/-- `get_api_client` -/
def getApiClient (a : Accounts) (apiKey : ApiKey) : Option UserApi :=
  a.userApi.find? (·.apiKey = apiKey)

/-- The user of a key. -/
def owner (a : Accounts) (apiKey : ApiKey) : Option Int :=
  (a.getApiClient apiKey).map UserApi.userId

/-- Whoever presents the key is granted access to the deployment. -/
def Grants (a : Accounts) (apiKey : ApiKey) (pid : Pid) : Prop :=
  ∃ client deployment, a.getApiClient apiKey = some client ∧ a.deployment pid = some deployment ∧
    ensureDeploymentAccess a.owner client.userId deployment = none

/-- `select(UserAPI).where(UserAPI.user_id == user.id).order_by(UserAPI.id.asc())` -/
def keysOf (a : Accounts) (userId : Int) : List UserApi := a.userApi.filter (·.userId = userId)

/-! ## Login -/

/-- `_verify_credentials` -/
def verifyCredentials (a : Accounts) (check : PasswordCheck) (username password : String) :
    Option User :=
  let username := strStrip username
  if username = "" ∨ password = "" then none
  else (a.users.find? (·.username = username)).filter fun user ↦
    user.password ≠ "" && check user.password password

/-- The `delete` of all keys of a user. -/
def deleteKeys (a : Accounts) (userId : Int) : Accounts where
  users := a.users
  userApi := a.userApi.filter (·.userId ≠ userId)
  unique := a.unique.sublist (List.filter_sublist.map UserApi.apiKey)
  deployment := a.deployment

/-- The row of a new key. -/
def addKey (a : Accounts) (userId : Int) (apiKey : ApiKey)
    (fresh : apiKey ∉ a.userApi.map UserApi.apiKey) : Accounts where
  users := a.users
  userApi := a.userApi ++ [⟨userId, apiKey⟩]
  unique := by
    rw [List.map_append, List.map_singleton, List.nodup_append]
    refine ⟨a.unique, List.nodup_singleton _, fun x hx y hy ↦ ?_⟩
    rw [List.mem_singleton.mp hy]
    rintro rfl
    exact fresh hx
  deployment := a.deployment

def maxApiKeyGenerationAttempts : Nat := 5

/-- The loop of `_issue_api_key` over the keys that it draws. -/
def generate (a : Accounts) (userId : Int) : List ApiKey → Option (Accounts × ApiKey)
  | [] => none
  | apiKey :: draws =>
    if fresh : apiKey ∉ a.userApi.map UserApi.apiKey then
      some (a.addKey userId apiKey fresh, apiKey)
    else a.generate userId draws

/-- `_issue_api_key`: the tables, the key, and whether it is new; `none` is the `RuntimeError`. -/
def issueApiKey (a : Accounts) (user : User) (rotateApiKey : Bool) (draws : List ApiKey) :
    Option (Accounts × ApiKey × Bool) :=
  match (a.keysOf user.id).head?, rotateApiKey with
  | some existing, false => some (a, existing.apiKey, false)
  | _, _ =>
    let a := if rotateApiKey then a.deleteKeys user.id else a
    (a.generate user.id (draws.take maxApiKeyGenerationAttempts)).map fun (a, apiKey) ↦
      (a, apiKey, true)

/-- The answer of `_authenticate_and_issue_api_key`. -/
inductive LoginAnswer
  | failure (status : Nat) (message : String)
  | success (username : String) (apiKey : ApiKey) (createdApiKey : Bool)
deriving DecidableEq

/-- `_authenticate_and_issue_api_key`, with the tables as they are committed. -/
def authenticateAndIssueApiKey (a : Accounts) (check : PasswordCheck) (username password : String)
    (rotateApiKey : Bool) (draws : List ApiKey) : LoginAnswer × Accounts :=
  match a.verifyCredentials check (strStrip username) password with
  | none => (.failure 401 "Incorrect credentials", a)
  | some user =>
    match a.issueApiKey user rotateApiKey draws with
    | none => (.failure 500 "Internal database error, please try again", a)
    | some (a', apiKey, created) => (.success user.username apiKey created, a')

/-! ## Owners -/

section Owners

variable {a a' : Accounts} {key k : ApiKey} {userId v : Int} {pid : Pid}

theorem owner_eq_some : a.owner key = some v ↔ ⟨v, key⟩ ∈ a.userApi := by
  unfold owner getApiClient
  constructor
  · intro h
    obtain ⟨row, hrow, rfl⟩ := Option.map_eq_some_iff.mp h
    have hkey : row.apiKey = key := by simpa using List.find?_some hrow
    rw [← hkey]
    exact List.mem_of_find?_eq_some hrow
  · intro h
    cases hfind : a.userApi.find? (·.apiKey = key) with
    | none =>
      have hno := List.find?_eq_none.mp hfind _ h
      simp at hno
    | some row =>
      have hkey : row.apiKey = key := by simpa using List.find?_some hfind
      have hrow := List.mem_of_find?_eq_some hfind
      have hsame := List.inj_on_of_nodup_map a.unique hrow h hkey
      rw [hsame]
      rfl

theorem owner_deleteKeys :
    (a.deleteKeys userId).owner key = some v ↔ a.owner key = some v ∧ v ≠ userId := by
  rw [owner_eq_some, owner_eq_some]
  unfold deleteKeys
  simp

theorem owner_addKey {fresh : key ∉ a.userApi.map UserApi.apiKey} :
    (a.addKey userId key fresh).owner k = some v ↔ a.owner k = some v ∨ v = userId ∧ k = key := by
  rw [owner_eq_some, owner_eq_some]
  unfold addKey
  simp

/-- Access goes by the users of the two keys. -/
theorem grants_iff :
    a.Grants key pid ↔ ∃ v d dk, a.owner key = some v ∧ a.deployment pid = some d ∧
      d.apiKey = some dk ∧ a.owner dk = some v := by
  constructor
  · rintro ⟨client, d, hclient, hd, haccess⟩
    obtain ⟨dk, hdk, howner⟩ := ensureDeploymentAccess_eq_none.mp haccess
    refine ⟨client.userId, d, dk, ?_, hd, hdk, howner⟩
    rw [owner, hclient]
    rfl
  · rintro ⟨v, d, dk, hkey, hd, hdk, howner⟩
    obtain ⟨client, hclient, rfl⟩ := Option.map_eq_some_iff.mp hkey
    exact ⟨client, d, hclient, hd, ensureDeploymentAccess_eq_none.mpr ⟨dk, hdk, howner⟩⟩

/-- One of the keys of a user opens the deployment. -/
def Opens (a : Accounts) (userId : Int) (pid : Pid) : Prop :=
  ∃ key, a.owner key = some userId ∧ a.Grants key pid

theorem opens_iff :
    a.Opens v pid ↔
      ∃ d dk, a.deployment pid = some d ∧ d.apiKey = some dk ∧ a.owner dk = some v := by
  constructor
  · rintro ⟨key, hkey, hgrants⟩
    obtain ⟨v', d, dk, hkey', hd, hdk, howner⟩ := grants_iff.mp hgrants
    cases hkey.symm.trans hkey'
    exact ⟨d, dk, hd, hdk, howner⟩
  · rintro ⟨d, dk, hd, hdk, howner⟩
    exact ⟨dk, howner, grants_iff.mpr ⟨v, d, dk, howner, hd, hdk, howner⟩⟩

/-! ## Rotation -/

/-- The tables after a rotation: of the user's keys only the new one is left. -/
structure Rotated (a : Accounts) (userId : Int) (k : ApiKey) (a' : Accounts) : Prop where
  deployment : a'.deployment = a.deployment
  owner : ∀ key v, a'.owner key = some v ↔
    a.owner key = some v ∧ v ≠ userId ∨ v = userId ∧ key = k
  fresh : ∀ v, a.owner k = some v → v = userId

theorem generate_spec {draws : List ApiKey} (h : a.generate userId draws = some (a', k)) :
    ∃ fresh : k ∉ a.userApi.map UserApi.apiKey, a' = a.addKey userId k fresh := by
  induction draws with
  | nil => cases h
  | cons apiKey draws ih =>
    unfold generate at h
    split at h
    · rename_i fresh
      cases h
      exact ⟨fresh, rfl⟩
    · exact ih h

theorem issueApiKey_rotated {user : User} {draws : List ApiKey} {created : Bool}
    (h : a.issueApiKey user true draws = some (a', k, created)) : Rotated a user.id k a' := by
  have hgenerate : (a.deleteKeys user.id).generate user.id
      (draws.take maxApiKeyGenerationAttempts) = some (a', k) := by
    have hissue : a.issueApiKey user true draws = ((a.deleteKeys user.id).generate user.id
        (draws.take maxApiKeyGenerationAttempts)).map fun (a, apiKey) ↦ (a, apiKey, true) := by
      unfold issueApiKey
      cases (a.keysOf user.id).head? <;> rfl
    rw [hissue] at h
    obtain ⟨⟨b, key⟩, hb, hpair⟩ := Option.map_eq_some_iff.mp h
    cases hpair
    exact hb
  obtain ⟨fresh, rfl⟩ := generate_spec hgenerate
  refine ⟨rfl, fun key v ↦ ?_, fun v hv ↦ ?_⟩
  · rw [owner_addKey, owner_deleteKeys]
  · by_contra hne
    apply fresh
    exact List.mem_map.mpr ⟨_, owner_eq_some.mp (owner_deleteKeys.mpr ⟨hv, hne⟩), rfl⟩

/-- The law of a rotation that gave user `userId` the key `k`. -/
structure KeepsAccess (a : Accounts) (userId : Int) (k : ApiKey) (a' : Accounts) : Prop where
  own : ∀ pid, a'.Grants k pid ↔ a.Opens userId pid
  others : ∀ v ≠ userId, ∀ pid, a'.Opens v pid ↔ a.Opens v pid

theorem Rotated.others (h : Rotated a userId k a') (hne : v ≠ userId) :
    a'.Opens v pid ↔ a.Opens v pid := by
  rw [opens_iff, opens_iff, h.deployment]
  have howner : ∀ dk, a'.owner dk = some v ↔ a.owner dk = some v := by
    intro dk
    rw [h.owner]
    simp [hne]
  simp only [howner]

theorem Rotated.keepsAccess_iff (h : Rotated a userId k a') :
    KeepsAccess a userId k a' ↔ ∀ pid d dk, a.deployment pid = some d → d.apiKey = some dk →
      (a.owner dk = some userId ↔ dk = k) := by
  have hgrants : ∀ pid, a'.Grants k pid ↔
      ∃ d dk, a.deployment pid = some d ∧ d.apiKey = some dk ∧ dk = k := by
    intro pid
    have hk : ∀ v, a'.owner k = some v ↔ v = userId := by
      intro v
      rw [h.owner]
      constructor
      · rintro (⟨hv, hne⟩ | ⟨hv, -⟩)
        · exact absurd (h.fresh v hv) hne
        · exact hv
      · rintro rfl
        exact Or.inr ⟨rfl, rfl⟩
    rw [grants_iff, h.deployment]
    constructor
    · rintro ⟨v, d, dk, hv, hd, hdk, howner⟩
      cases (hk v).mp hv
      refine ⟨d, dk, hd, hdk, ?_⟩
      rcases (h.owner dk userId).mp howner with ⟨-, hne⟩ | ⟨-, hsame⟩
      · exact absurd rfl hne
      · exact hsame
    · rintro ⟨d, dk, hd, hdk, rfl⟩
      exact ⟨userId, d, dk, (hk userId).mpr rfl, hd, hdk, (hk userId).mpr rfl⟩
  constructor
  · intro hkeeps pid d dk hd hdk
    have hown := hkeeps.own pid
    rw [hgrants, opens_iff] at hown
    constructor
    · intro howner
      obtain ⟨d', dk', hd', hdk', hsame⟩ := hown.mpr ⟨d, dk, hd, hdk, howner⟩
      cases hd.symm.trans hd'
      cases hdk.symm.trans hdk'
      exact hsame
    · intro hsame
      obtain ⟨d', dk', hd', hdk', howner⟩ := hown.mp ⟨d, dk, hd, hdk, hsame⟩
      cases hd.symm.trans hd'
      cases hdk.symm.trans hdk'
      exact howner
  · intro hall
    refine ⟨fun pid ↦ ?_, fun v hne pid ↦ h.others hne⟩
    rw [hgrants, opens_iff]
    refine exists_congr fun d ↦ exists_congr fun dk ↦ and_congr_right fun hd ↦
      and_congr_right fun hdk ↦ ?_
    exact (hall pid d dk hd hdk).symm

end Owners

end Accounts

/-- A login that rotates the key keeps the access of its user exactly when no deployment is recorded
under a key of the user, or under the new key, other than one under both. -/
theorem rotation_keeps_iff {check : PasswordCheck} {a a' : Accounts}
    {username password name : String} {draws : List ApiKey} {k : ApiKey} {created : Bool}
    (h : a.authenticateAndIssueApiKey check username password true draws =
      (.success name k created, a')) :
    ∃ user, a.verifyCredentials check (strStrip username) password = some user ∧
      (Accounts.KeepsAccess a user.id k a' ↔ ∀ pid d dk, a.deployment pid = some d →
        d.apiKey = some dk → (a.owner dk = some user.id ↔ dk = k)) := by
  unfold Accounts.authenticateAndIssueApiKey at h
  cases huser : a.verifyCredentials check (strStrip username) password with
  | none =>
    rw [huser] at h
    cases h
  | some user =>
    rw [huser] at h
    dsimp only at h
    cases hissue : a.issueApiKey user true draws with
    | none =>
      rw [hissue] at h
      cases h
    | some result =>
      obtain ⟨b, key, new⟩ := result
      rw [hissue] at h
      cases h
      have hrotated := Accounts.issueApiKey_rotated hissue
      exact ⟨user, rfl, hrotated.keepsAccess_iff⟩

namespace Sample

def oldKey : ApiKey := ⟨"k1", by decide⟩
def newKey : ApiKey := ⟨"k2", by decide⟩
def website : Pid := ⟨"p1", by decide⟩

/-- One user with one key, and what it has deployed. -/
def accounts (deployment : Pid → Option Deployment) : Accounts where
  users := [⟨1, "ann", "hash"⟩]
  userApi := [⟨1, oldKey⟩]
  unique := by decide
  deployment := deployment

def acceptPassword : PasswordCheck := fun hash password ↦ hash == "hash" && password == "secret"

/-- The account after its login with rotation. -/
def rotated (deployment : Pid → Option Deployment) : Accounts.LoginAnswer × Accounts :=
  (accounts deployment).authenticateAndIssueApiKey acceptPassword "ann" "secret" true [newKey]

def websiteOnly : Pid → Option Deployment := fun pid ↦
  if pid = website then some ⟨"site", some oldKey⟩ else none

end Sample

/-- Before anything is deployed a rotation costs nothing. -/
theorem rotation_keeps_iff_undeployed :
    (Sample.rotated fun _ ↦ none).1 = .success "ann" Sample.newKey true ∧
    Accounts.KeepsAccess (Sample.accounts fun _ ↦ none) 1 Sample.newKey
      (Sample.rotated fun _ ↦ none).2 := by
  have hanswer : (Sample.rotated fun _ ↦ none).1 = .success "ann" Sample.newKey true := by
    decide +kernel
  refine ⟨hanswer, ?_⟩
  obtain ⟨user, huser, hiff⟩ := rotation_keeps_iff (h := Prod.ext hanswer rfl)
  have hid : user = ⟨1, "ann", "hash"⟩ := by
    have hverified : (Sample.accounts fun _ ↦ none).verifyCredentials Sample.acceptPassword
        (strStrip "ann") "secret" = some ⟨1, "ann", "hash"⟩ := by decide +kernel
    exact Option.some.inj (huser.symm.trans hverified)
  rw [hid] at hiff
  apply hiff.mpr
  intro pid d dk hd
  cases hd

/-- The new key is refused where the old one was accepted. -/
theorem rotation_loses_deployment :
    (Sample.rotated Sample.websiteOnly).1 = .success "ann" Sample.newKey true ∧
    ensureDeploymentAccess (Sample.accounts Sample.websiteOnly).owner 1
      ⟨"site", some Sample.oldKey⟩ = none ∧
    ensureDeploymentAccess (Sample.rotated Sample.websiteOnly).2.owner 1
      ⟨"site", some Sample.oldKey⟩ = some (403, "Deployment owner could not be resolved") ∧
    ¬ Accounts.KeepsAccess (Sample.accounts Sample.websiteOnly) 1 Sample.newKey
      (Sample.rotated Sample.websiteOnly).2 := by
  refine ⟨by decide +kernel, by decide +kernel, by decide +kernel, fun hkeeps ↦ ?_⟩
  have hopens : (Sample.accounts Sample.websiteOnly).Opens 1 Sample.website :=
    Accounts.opens_iff.mpr ⟨⟨"site", some Sample.oldKey⟩, Sample.oldKey, by decide +kernel, rfl,
      by decide +kernel⟩
  obtain ⟨v, d, dk, -, hd, hdk, howner⟩ :=
    Accounts.grants_iff.mp ((hkeeps.own Sample.website).mpr hopens)
  have hdeployed : (Sample.rotated Sample.websiteOnly).2.deployment Sample.website =
      some ⟨"site", some Sample.oldKey⟩ := by decide +kernel
  cases hd.symm.trans hdeployed
  cases hdk
  have hnone : (Sample.rotated Sample.websiteOnly).2.owner Sample.oldKey = none := by
    decide +kernel
  cases howner.symm.trans hnone

end TandemAio
