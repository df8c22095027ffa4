import TandemAio.Charges
import TandemAio.Hosting
import TandemAio.Reasoning.PythonValues
import TandemAio.Requests

/-!
# Requests that fail halfway

`/nodes/register` and `/serve/deploy`, from the content of a request to what they leave, beside
`/start/`.
-/

open Reasoning Reasoning.Prog

namespace TandemAio

/-- What stands behind the server: the parser of keys, what the database takes, and the decimal
digits of Unicode. -/
class Backing where
  loadPem : String → Option PublicKey
  takesPem : String → Bool
  takesDeploymentName : String → Bool
  decimal : CodePoint → Option Nat

/-! ## `/nodes/register` -/

/-- The fields `register` reads from a JSON object; `none` is a missing field. -/
structure RegisterFields where
  supportsWasm : Option Json
  latency : Option Json
  download : Option Json
  upload : Option Json
  rsaPublicKeyPem : Option Json

/-- The body of a request, by what `get_json(silent=True)` makes of it. -/
inductive RegisterBody
  /-- No JSON, or a JSON value that counts as false. -/
  | falsy
  /-- A JSON value that has no `get`. -/
  | notObject
  | object (fields : RegisterFields)

def RegisterBody.fields : RegisterBody → Option RegisterFields
  | .falsy => some ⟨none, none, none, none, none⟩
  | .notObject => none
  | .object fields => some fields

/-- A registration, and the node id and token it draws. -/
structure RegisterRequest where
  nodeId : NodeId
  nodeToken : Token
  bearer : Option Token
  body : RegisterBody

namespace RegisterFields

/-- The texts of the metrics that are not `None`. -/
def metrics (fields : RegisterFields) : List String :=
  [fields.latency, fields.download, fields.upload].filterMap fun value ↦
    (value.filter (· ≠ .null)).map Json.text

/-- `(data.get("rsa_public_key_pem") or "").strip()`; `none` when that raises. -/
def rsaPem (fields : RegisterFields) : Option String :=
  let value := fields.rsaPublicKeyPem.getD .null
  if !value.truthy then some ""
  else match value with
    | .str text => some (strStrip text)
    | _ => none

/-- The `rsa_pem` as `register` sorts it. -/
def pem [Backing] (fields : RegisterFields) : Pem :=
  match fields.rsaPem with
  | none => .notText
  | some text =>
    if text = "" then .absent
    else match Backing.loadPem text with
      | none => .invalid
      | some key => .key key

/-- The registration of a request with these fields. -/
def registration [Backing] (fields : RegisterFields) (r : RegisterRequest) : Register where
  nodeId := r.nodeId
  nodeToken := r.nodeToken
  bearer := r.bearer
  supportsWasm := (fields.supportsWasm.getD .null).truthy
  pem := fields.pem

end RegisterFields

/-- `register`, from the content of its request. -/
def registerNode [Storage] [Backing] (r : RegisterRequest) : Server Response := do
  match ← resolveRegistrationIdentity r.bearer with
  | .error response => return response
  | .ok owner =>
    match r.body.fields with
    -- `AttributeError`
    | none => return .serverError
    | some fields =>
      let timestamp ← Server.time
      if !fields.metrics.all Storage.encodable then
        -- `UnicodeEncodeError`, from the `HSET`
        return .serverError
      else
        Server.putNode r.nodeId ((fields.registration r).node owner timestamp)
        Server.saddNodes r.nodeId
        match fields.rsaPem with
        | none => return .serverError
        | some text =>
          if text = "" then return .registered r.nodeId r.nodeToken
          else match Backing.loadPem text with
            | none => return .error 400 "Invalid RSA public key PEM"
            | some key =>
              if !Backing.takesPem text then
                -- the commit raises
                return .serverError
              else
                Server.write (·.putPublicKey r.nodeId key) []
                return .registered r.nodeId r.nodeToken

/-! ## `shlex.split` -/

inductive ShlexState
  | space
  | word
  | quote (mark : Char)
  /-- After a backslash, within quotation marks or in a word. -/
  | escape (mark : Option Char)

def shlexWhitespace (c : Char) : Bool := c == ' ' || c == '\t' || c == '\r' || c == '\n'

def shlexQuote (c : Char) : Bool := c == '\'' || c == '"'

/-- The words of the rest of a text: `token` is the word so far, and `quoted` says whether a part of
it was in quotation marks. -/
def shlexFrom : ShlexState → List Char → Bool → List Char → Except String (List String)
  | .space, _, _, [] => .ok []
  | .word, token, quoted, [] =>
    .ok (if token = [] ∧ quoted = false then [] else [String.ofList token])
  | .quote _, _, _, [] => .error "No closing quotation"
  | .escape _, _, _, [] => .error "No escaped character"
  | .space, _, _, c :: rest =>
    if shlexWhitespace c then shlexFrom .space [] false rest
    else if c = '\\' then shlexFrom (.escape none) [] false rest
    else if shlexQuote c then shlexFrom (.quote c) [] false rest
    else shlexFrom .word [c] false rest
  | .word, token, quoted, c :: rest =>
    if shlexWhitespace c then
      if token = [] ∧ quoted = false then shlexFrom .space [] false rest
      else (String.ofList token :: ·) <$> shlexFrom .space [] false rest
    else if shlexQuote c then shlexFrom (.quote c) token quoted rest
    else if c = '\\' then shlexFrom (.escape none) token quoted rest
    else shlexFrom .word (token ++ [c]) quoted rest
  | .quote mark, token, _, c :: rest =>
    if c = mark then shlexFrom .word token true rest
    else if c = '\\' ∧ mark = '"' then shlexFrom (.escape (some mark)) token true rest
    else shlexFrom (.quote mark) (token ++ [c]) true rest
  | .escape none, token, quoted, c :: rest => shlexFrom .word (token ++ [c]) quoted rest
  | .escape (some mark), token, quoted, c :: rest =>
    -- only the quotation mark and the backslash can be escaped within quotation marks
    if c ≠ '\\' ∧ c ≠ mark then shlexFrom (.quote mark) (token ++ ['\\', c]) quoted rest
    else shlexFrom (.quote mark) (token ++ [c]) quoted rest

/-- `shlex.split` -/
def shlexSplit (s : String) : Except String (List String) := shlexFrom .space [] false s.toList

example : shlexSplit "flask run --name 'my \"app\"' \"\"" =
    .ok ["flask", "run", "--name", "my \"app\"", ""] := by decide

/-! ## `/serve/deploy` -/

/-- `int(s)` of a text -/
def pyInt [Backing] (s : String) : Option Int := intOfStr Backing.decimal (points s)

/-- The form of a deployment, its file, and the key of its sender. -/
structure DeployRequest where
  apiKey : Option ApiKey
  bundle : Option (List UInt8)
  startCommand : Option String
  replicas : Option String
  name : Option String

inductive DeployReply
  | error (status : Nat) (error : String)
  | serverError
  | created (pid : Pid)
deriving DecidableEq

/-- What `serve_deploy` knows of a request that it goes on to store. -/
structure DeployChecked where
  apiKey : ApiKey
  bundle : List UInt8
  startCommand : String
  replicas : Int
  name : String

/-- `serve_deploy` up to its first write. -/
def DeployRequest.check [Backing] (r : DeployRequest) (s : Store) :
    Except DeployReply DeployChecked :=
  match s.requireUserApiKey r.apiKey with
  | .error (status, message) => .error (.error status message)
  | .ok (apiKey, _) =>
    match r.bundle with
    | none => .error (.error 400 "Missing app bundle")
    | some bundle =>
      let startCommand := strStrip (r.startCommand.getD "")
      if startCommand = "" then .error (.error 400 "Missing start_command")
      else
        match pyInt (r.replicas.getD "1") with
        | none => .error (.error 400 "replicas must be an integer")
        | some replicas =>
          .ok ⟨apiKey, bundle, startCommand, max 1 replicas,
            strStrip ((r.name.filter (· ≠ "")).getD "app")⟩

/-- The stores of the server: Redis and the database, and the bundles of apps. -/
structure Site where
  hosting : HostStore
  /-- The file `serve/<pid>/bundle.tar`. -/
  bundle : Pid → Option (List UInt8)

namespace Site

def setStore (site : Site) (s : Store) : Site :=
  { site with hosting := { site.hosting with store := s } }

def putBundle (site : Site) (pid : Pid) (bundle : List UInt8) : Site :=
  { site with bundle := Function.update site.bundle pid (some bundle) }

/-- The row of a deployment. -/
def putDeployment (site : Site) (pid : Pid) (deployment : Deployment) : Site :=
  site.setStore { site.hosting.store with
    deployment := Function.update site.hosting.store.deployment pid (some deployment) }

/-- `serve_deploy` -/
def serveDeploy [Backing] (site : Site) (r : DeployRequest) (pid : Pid) : DeployReply × Site :=
  match r.check site.hosting.store with
  | .error reply => (reply, site)
  | .ok checked =>
    let saved := site.putBundle pid checked.bundle
    -- the commit raises
    if !Backing.takesDeploymentName checked.name then (.serverError, saved)
    else
      let stored := saved.putDeployment pid ⟨checked.name, some checked.apiKey⟩
      match shlexSplit checked.startCommand with
      -- `ValueError`
      | .error _ => (.serverError, stored)
      | .ok startCommand =>
        (.created pid, { stored with
          hosting := stored.hosting.createServeDeployment pid startCommand checked.replicas
            checked.apiKey })

end Site

/-! ## Requests and their answers -/

/-- A request with its content, and the ids that the server draws for it. -/
inductive PostedRequest
  | register (r : RegisterRequest)
  | deploy (r : DeployRequest) (pid : Pid)
  | start (limits : QuotaLimits) (r : StartRequest) (draws : StartDraws)

def DeployReply.refusal : DeployReply → Bool
  | .created _ => false
  | _ => true

def StartReply.refusal (reply : StartReply) : Bool := reply.job.isNone

/-- A request, whether its answer is no success, and what it leaves. -/
inductive Answers [AsciiFold] [Storage] [Backing] (site : Site) : PostedRequest → Bool → Site → Prop
  | register {r response s'} : Runs (registerNode r) site.hosting.store response s' →
      Answers site (.register r) response.refusal (site.setStore s')
  | deploy {r pid} : Answers site (.deploy r pid) (site.serveDeploy r pid).1.refusal
      (site.serveDeploy r pid).2
  | start {limits r draws reply s'} : Runs (start limits r draws) site.hosting.store reply s' →
      Answers site (.start limits r draws) reply.refusal (site.setStore s')

namespace PostedRequest

/-- The ids that are drawn are new. -/
def NewTo (site : Site) : PostedRequest → Prop
  | .register r => site.hosting.store.node r.nodeId = none
  | .deploy _ pid => site.bundle pid = none
  | .start _ _ draws => site.hosting.store.job draws.jobId = none

/-- The stores are as they were, but for the failover pass of a request that plans. -/
def LeavesNothing (site site' : Site) : PostedRequest → Prop
  | .start _ _ _ => site' = site ∨
      ∃ s', Runs requeueStaleTasks site.hosting.store () s' ∧ site' = site.setStore s'
  | _ => site' = site

end PostedRequest

/-- `_resolve_registration_identity`, as a function of the state. -/
def Store.registrationIdentity (s : Store) (provided : Option Token) :
    Except Response (Option Nat) :=
  match provided.bind s.userApi with
  | some userId => .ok (some userId)
  | none =>
    match s.nodeRegistrationToken with
    | none => .ok none
    | some expected =>
      match provided with
      | none => .error (.error 401 "Missing node registration bearer token")
      | some provided =>
        if compareToken (some expected) (some provided) then .ok none
        else .error (.error 403 "Invalid node registration token")

section Storable

variable [Storage] [Backing]

/-- Once the node is written, its key can be stored, too, or there is none. -/
def RegisterRequest.Storable (r : RegisterRequest) (s : Store) : Prop :=
  ∀ owner fields, s.registrationIdentity r.bearer = .ok owner → r.body.fields = some fields →
    fields.metrics.all Storage.encodable = true → ∃ text, fields.rsaPem = some text ∧
      (text = "" ∨ Backing.takesPem text = true ∧ ∃ key, Backing.loadPem text = some key)

omit [Storage] in
/-- Once the bundle is saved, the row can be written and the command be split. -/
def DeployRequest.Storable (r : DeployRequest) (s : Store) : Prop :=
  ∀ checked, r.check s = .ok checked → Backing.takesDeploymentName checked.name = true ∧
    ∃ startCommand, shlexSplit checked.startCommand = .ok startCommand

omit [Backing] in
/-- Once the job is written, the tasks that are planned can be written, too. -/
def StartRequest.Storable [AsciiFold] (limits : QuotaLimits) (r : StartRequest)
    (draws : StartDraws) (s : Store) : Prop :=
  ∀ checked files s₁ planned, r.Plans limits s checked files s₁ planned →
    ∀ a ∈ draws.creates files.runtime checked planned, a.storable = true

/-- What a request writes first does not have to be followed by a failure. -/
def PostedRequest.Storable [AsciiFold] (site : Site) : PostedRequest → Prop
  | .register r => r.Storable site.hosting.store
  | .deploy r _ => r.Storable site.hosting.store
  | .start limits r draws => r.Storable limits draws site.hosting.store

end Storable

/-! ## Registrations -/

section Register

variable [Storage] [Backing] {s : Store}

omit [Storage] [Backing] in
theorem wp_resolveRegistrationIdentity_eq (provided : Option Token)
    (Q : Except Response (Option Nat) → Store → Prop) :
    wp (resolveRegistrationIdentity provided) Q s ↔ Q (s.registrationIdentity provided) s := by
  rw [resolveRegistrationIdentity, Store.registrationIdentity, wp_bind, Server.wp_read]
  cases provided.bind s.userApi with
  | some userId => exact wp_pure _ Q s
  | none =>
    simp only [wp_bind, Server.wp_read]
    cases s.nodeRegistrationToken with
    | none => exact wp_pure _ Q s
    | some expected =>
      cases provided with
      | none => exact wp_pure _ Q s
      | some provided =>
        simp only
        split <;> exact wp_pure _ Q s

/-- A request that gets to its end, and whose key can be stored, is the registration of the
fields it has. -/
theorem wp_registerNode_registration {r : RegisterRequest} {fields : RegisterFields}
    (hfields : r.body.fields = some fields) (hmetrics : fields.metrics.all Storage.encodable = true)
    (htakes : ∀ text, fields.rsaPem = some text → text ≠ "" → Backing.takesPem text = true)
    (Q : Response → Store → Prop) :
    wp (registerNode r) Q s ↔ wp (register (fields.registration r)) Q s := by
  have hbearer : (fields.registration r).bearer = r.bearer := rfl
  rw [registerNode, register, wp_bind, wp_bind, hbearer, wp_resolveRegistrationIdentity_eq,
    wp_resolveRegistrationIdentity_eq]
  cases s.registrationIdentity r.bearer with
  | error response => rfl
  | ok owner =>
    have hpem : (fields.registration r).pem = fields.pem := rfl
    simp only [hfields, hmetrics, Bool.not_true, Bool.false_eq_true, if_false, wp_bind,
      Server.wp_read, Server.wp_write, hpem, RegisterFields.pem]
    cases htext : fields.rsaPem with
    | none => rfl
    | some text =>
      by_cases hempty : text = ""
      · simp only [hempty, if_true]
        rfl
      · simp only [hempty, if_false]
        cases hkey : Backing.loadPem text with
        | none => rfl
        | some key =>
          simp only [htakes text htext hempty, Bool.not_true, Bool.false_eq_true, if_false]
          rfl

/-- A registration that is refused leaves nothing if and only if its key can be stored. -/
theorem wp_registerNode_leaves {r : RegisterRequest} (hnew : s.node r.nodeId = none) :
    wp (registerNode r)
      (fun response s' ↦ (response.refusal = true → s' = s) ↔ r.Storable s) s := by
  rw [registerNode, wp_bind, wp_resolveRegistrationIdentity_eq]
  cases howner : s.registrationIdentity r.bearer with
  | error response =>
    refine (wp_pure _ _ _).mpr ⟨fun _ owner fields h ↦ ?_, fun _ _ ↦ rfl⟩
    rw [howner] at h
    cases h
  | ok owner =>
    cases hfields : r.body.fields with
    | none =>
      refine (wp_pure _ _ _).mpr ⟨fun _ owner fields _ h ↦ ?_, fun _ _ ↦ rfl⟩
      rw [hfields] at h
      cases h
    | some fields =>
      simp only [wp_bind, Server.wp_read]
      cases hmetrics : fields.metrics.all Storage.encodable with
      | false =>
        refine (wp_pure _ _ _).mpr ⟨fun _ owner' fields' _ h h' ↦ ?_, fun _ _ ↦ rfl⟩
        rw [hfields, Option.some.injEq] at h
        rw [← h, hmetrics] at h'
        cases h'
      | true =>
        simp only [Bool.not_true, Bool.false_eq_true, if_false, wp_bind, Server.wp_write]
        -- from here on there is a node
        have hleft : (s.putNode r.nodeId ((fields.registration r).node owner s.clock)).addMember
            r.nodeId ≠ s := by
          intro hsame
          have hnode := congrArg (fun s ↦ s.node r.nodeId) hsame
          simp only [Store.addMember_node, Store.putNode_node, Function.update_self, hnew] at hnode
          cases hnode
        have hstorable : r.Storable s ↔ ∃ text, fields.rsaPem = some text ∧
            (text = "" ∨ Backing.takesPem text = true ∧
              ∃ key, Backing.loadPem text = some key) := by
          refine ⟨fun h ↦ h owner fields howner hfields hmetrics, fun h ↦ ?_⟩
          intro owner' fields' _ hfields' _
          rw [hfields, Option.some.injEq] at hfields'
          rw [← hfields']
          exact h
        rw [hstorable]
        cases htext : fields.rsaPem with
        | none =>
          refine (wp_pure _ _ _).mpr ⟨fun h ↦ absurd (h rfl) hleft, ?_⟩
          rintro ⟨text, h, -⟩
          cases h
        | some text =>
          by_cases hempty : text = ""
          · simp only [hempty, if_true]
            exact (wp_pure _ _ _).mpr ⟨fun _ ↦ ⟨"", rfl, .inl rfl⟩, fun _ h ↦ by cases h⟩
          · simp only [hempty, if_false]
            cases hkey : Backing.loadPem text with
            | none =>
              refine (wp_pure _ _ _).mpr ⟨fun h ↦ absurd (h rfl) hleft, ?_⟩
              rintro ⟨text', h, hempty' | ⟨-, key, hkey'⟩⟩
              · rw [Option.some.injEq] at h
                exact absurd (h.trans hempty') hempty
              · rw [Option.some.injEq] at h
                rw [← h, hkey] at hkey'
                cases hkey'
            | some key =>
              cases htakes : Backing.takesPem text with
              | false =>
                refine (wp_pure _ _ _).mpr ⟨fun h ↦ absurd (h rfl) hleft, ?_⟩
                rintro ⟨text', h, hempty' | ⟨htakes', -⟩⟩
                · rw [Option.some.injEq] at h
                  exact absurd (h.trans hempty') hempty
                · rw [Option.some.injEq] at h
                  rw [← h, htakes] at htakes'
                  cases htakes'
              | true =>
                simp only [Bool.not_true, Bool.false_eq_true, if_false, wp_bind, Server.wp_write]
                refine (wp_pure _ _ _).mpr ⟨fun _ ↦ ?_, fun _ h ↦ by cases h⟩
                exact ⟨text, rfl, .inr ⟨htakes, key, hkey⟩⟩

end Register

/-! ## Deployments -/

section Deploy

variable [Backing] {site : Site}

/-- A deployment that is refused leaves nothing if and only if its row can be written and its
command be split. -/
theorem serveDeploy_leaves {r : DeployRequest} {pid : Pid} (hnew : site.bundle pid = none) :
    ((site.serveDeploy r pid).1.refusal = true → (site.serveDeploy r pid).2 = site) ↔
      r.Storable site.hosting.store := by
  unfold Site.serveDeploy DeployRequest.Storable
  cases hcheck : r.check site.hosting.store with
  | error reply => exact ⟨fun _ checked h ↦ (by cases h), fun _ _ ↦ rfl⟩
  | ok checked =>
    -- from here on there is a bundle
    have hsaved : ∀ site' : Site, site'.bundle pid = some checked.bundle → site' ≠ site := by
      rintro _ hbundle rfl
      rw [hnew] at hbundle
      cases hbundle
    have hbundle : (site.putBundle pid checked.bundle).bundle pid = some checked.bundle :=
      Function.update_self pid _ _
    have hone : (∀ checked', Except.ok (ε := DeployReply) checked = .ok checked' →
        Backing.takesDeploymentName checked'.name = true ∧
          ∃ startCommand, shlexSplit checked'.startCommand = .ok startCommand) ↔
        Backing.takesDeploymentName checked.name = true ∧
          ∃ startCommand, shlexSplit checked.startCommand = .ok startCommand := by
      refine ⟨fun h ↦ h checked rfl, fun h checked' hsame ↦ ?_⟩
      cases hsame
      exact h
    rw [hone]
    dsimp only
    cases hname : Backing.takesDeploymentName checked.name with
    | false =>
      refine ⟨fun h ↦ absurd (h rfl) (hsaved _ hbundle), fun h ↦ ?_⟩
      cases h.1
    | true =>
      simp only [Bool.not_true, Bool.false_eq_true, if_false]
      cases hsplit : shlexSplit checked.startCommand with
      | error message =>
        refine ⟨fun h ↦ absurd (h rfl) (hsaved _ hbundle), fun h ↦ ?_⟩
        obtain ⟨-, startCommand, hok⟩ := h
        cases hok
      | ok startCommand => exact ⟨fun _ ↦ ⟨trivial, startCommand, rfl⟩, fun _ h ↦ by cases h⟩

end Deploy

/-! ## Jobs -/

section Start

variable [AsciiFold] [Storage] {s s' : Store} {limits : QuotaLimits} {r : StartRequest}
  {draws : StartDraws} {reply : StartReply}

omit [AsciiFold] in
theorem createTask_storable (a : CreateTask) : (s.createTask a).1 = a.storable ∧
    (s.createTask a).2.job = s.job := by
  unfold Store.createTask CreateTask.storable
  by_cases hname : Storage.takesName a.blobPath.name = true
  · by_cases htext : Storage.encodable (a.task 0).taskName = true
    · simp only [hname, htext, Bool.not_true, Bool.false_eq_true, if_false, Bool.and_self,
        true_and]
      rfl
    · simp only [hname, htext, Bool.not_true, Bool.false_eq_true, if_false, Bool.not_false,
        if_true, Bool.and_false, true_and]
      rfl
  · simp [hname]

omit [AsciiFold] in
theorem createTasks_storable (creates : List CreateTask) :
    (s.createTasks creates).1 = creates.all CreateTask.storable ∧
      (s.createTasks creates).2.job = s.job := by
  induction creates generalizing s with
  | nil => exact ⟨rfl, rfl⟩
  | cons a rest ih =>
    obtain ⟨hfirst, hjob⟩ := createTask_storable (s := s) a
    rw [Store.createTasks, List.all_cons, ← hfirst]
    cases hraise : (s.createTask a).1 with
    | true =>
      obtain ⟨hrest, hjob'⟩ := ih (s := (s.createTask a).2)
      simp only [if_true, Bool.true_and]
      exact ⟨hrest, hjob'.trans hjob⟩
    | false =>
      simp only [Bool.false_eq_true, if_false, Bool.false_and]
      exact ⟨hraise, hjob⟩

omit [AsciiFold] [Storage] in
theorem staleTasks_job (h : Runs requeueStaleTasks s () s') : s'.job = s.job := by
  have hvia := (wp_requeueStaleTasks s).elim h
  refine hvia.invariant (I := fun s₁ ↦ s₁.job = s.job) (fun s₁ l s₂ hl hm hs ↦ ?_) rfl
  cases hm with
  | clearPointer | reclaim => exact hs
  | _ => exact hl.elim

theorem Started.leaves (h : Started limits r draws s reply s') (hnew : s.job draws.jobId = none) :
    (reply.refusal = true → s' = s ∨ Runs requeueStaleTasks s () s') ↔
      r.Storable limits draws s := by
  cases h with
  | refused _ hno =>
    exact ⟨fun _ checked files s₁ planned hplans ↦ absurd hplans (hno _ _ _ _), fun _ _ ↦ .inl rfl⟩
  | unplanned _ hno hstale =>
    exact ⟨fun _ checked files s₁ planned hplans ↦ absurd hplans (hno _ _ _ _),
      fun _ _ ↦ .inr hstale⟩
  | @queued checked files s₁ s₂ planned _ hplans hcreated hreply =>
    refine ⟨fun _ checked' files' s₁' planned' hplans' a ha ↦ ?_, fun _ h ↦ ?_⟩
    · obtain ⟨rfl, rfl, rfl, rfl⟩ := hplans.unique hplans'
      have hall := (createTasks_storable (s := draws.jobStore s₁' checked' planned')
        (draws.creates files'.runtime checked' planned')).1
      rw [hcreated] at hall
      exact List.all_eq_true.mp hall.symm a ha
    · rw [hreply] at h
      cases h
  | @raised checked files s₁ _ planned hplans hcreated =>
    obtain ⟨hall, hjob⟩ := createTasks_storable (s := draws.jobStore s₁ checked planned)
      (draws.creates files.runtime checked planned)
    rw [hcreated] at hall hjob
    -- the job is there
    have hleft : s'.job draws.jobId ≠ none := by
      have hjob' : s'.job = (draws.jobStore s₁ checked planned).job := hjob
      rw [hjob']
      simp [StartDraws.jobStore]
    constructor
    · intro h
      rcases h rfl with hsame | hstale
      · exact absurd (hsame ▸ hnew) hleft
      · rw [staleTasks_job hstale] at hleft
        exact absurd hnew hleft
    · intro hstorable
      have htrue : (draws.creates files.runtime checked planned).all CreateTask.storable = true :=
        List.all_eq_true.mpr (hstorable checked files s₁ planned hplans)
      rw [htrue] at hall
      cases hall

end Start

/-- A request that is refused leaves nothing, but for the failover pass, if and only if nothing
that it writes first is followed by a failure. -/
theorem refusal_leaves_nothing_iff [AsciiFold] [Storage] [Backing] {site site' : Site}
    {request : PostedRequest} {refused : Bool} (h : Answers site request refused site')
    (hnew : request.NewTo site) :
    (refused = true → request.LeavesNothing site site') ↔ request.Storable site := by
  have hsite : ∀ {s'}, site.setStore s' = site ↔ s' = site.hosting.store := by
    intro s'
    constructor
    · intro hsame
      exact congrArg (fun site ↦ site.hosting.store) hsame
    · rintro rfl
      rfl
  cases h with
  | @register r response s' hruns =>
    have hleaves := (wp_registerNode_leaves hnew).elim hruns
    show (response.refusal = true → site.setStore s' = site) ↔ _
    rw [hsite]
    exact hleaves
  | deploy => exact serveDeploy_leaves hnew
  | @start limits r draws reply s' hruns =>
    have hleaves := ((wp_start limits r draws).elim hruns).leaves hnew
    refine Iff.trans (forall_congr' fun _ ↦ ?_) hleaves
    show (site.setStore s' = site ∨ ∃ s'', _ ∧ site.setStore s' = site.setStore s'') ↔ _
    rw [hsite]
    refine or_congr Iff.rfl ⟨?_, fun hstale ↦ ⟨s', hstale, rfl⟩⟩
    rintro ⟨s'', hstale, hsame⟩
    have hstore : s' = s'' := congrArg (fun site ↦ site.hosting.store) hsame
    rw [hstore]
    exact hstale

/-! ## Requests that are refused -/

namespace Sample

/-- A parser that knows the key of the first node, a column of 255 characters, and ASCII digits. -/
scoped instance backing : Backing where
  loadPem text := if text = "PEM A" then some (.rsa 1) else none
  takesPem _ := true
  takesDeploymentName text := text.toList.length ≤ 255
  decimal c := if isDigit c then some (c.val - '0'.toNat) else none

/-- The site of a user with two keys, after a node has joined it. -/
def joinedSite : Site := ⟨.initial nodeJoined, fun _ ↦ none⟩

def registerWith (text : String) : RegisterRequest where
  nodeId := nodeB
  nodeToken := name "token-b"
  bearer := none
  body := .object ⟨some (.bool true), none, none, none, some (.str text)⟩

def deployWith (startCommand : String) : DeployRequest where
  apiKey := some keyOne
  bundle := some [1]
  startCommand := some startCommand
  replicas := some "2"
  name := none

end Sample

open Sample in
/-- A deployment without a command is refused, and leaves nothing. -/
theorem refusal_leaves_nothing_deploy :
    (joinedSite.serveDeploy (deployWith " ") (name "serve_1")).1 =
        .error 400 "Missing start_command" ∧
      (PostedRequest.deploy (deployWith " ") (name "serve_1")).LeavesNothing joinedSite
        (joinedSite.serveDeploy (deployWith " ") (name "serve_1")).2 := by
  have hstore : joinedSite.hosting.store = nodeJoined := rfl
  have hcheck : (deployWith " ").check nodeJoined =
      .error (.error 400 "Missing start_command") := rfl
  have hreply : (joinedSite.serveDeploy (deployWith " ") (name "serve_1")).1 =
      .error 400 "Missing start_command" := by
    unfold Site.serveDeploy
    rw [hstore, hcheck]
  have hstorable : (deployWith " ").Storable joinedSite.hosting.store := by
    intro checked hchecked
    rw [hstore, hcheck] at hchecked
    cases hchecked
  have hanswers : Answers joinedSite (.deploy (deployWith " ") (name "serve_1")) _ _ := .deploy
  have hleaves := (refusal_leaves_nothing_iff hanswers rfl).mpr hstorable
  exact ⟨hreply, hleaves (by rw [hreply]; rfl)⟩

open Sample in
/-- A PEM text that does not load is answered with 400, and the node is there; a command with an
open quotation mark raises, and the bundle and the row are there. -/
theorem refusals_leave_rows :
    (∃ site', Answers joinedSite (.register (registerWith "PEM")) true site' ∧
      ¬ (PostedRequest.register (registerWith "PEM")).LeavesNothing joinedSite site' ∧
      (joinedSite.hosting.store.node nodeB).isSome = false ∧
      (site'.hosting.store.node nodeB).isSome = true ∧ nodeB ∈ site'.hosting.store.nodes) ∧
    (∃ site', Answers joinedSite (.deploy (deployWith "run \"") (name "serve_1")) true site' ∧
      ¬ (PostedRequest.deploy (deployWith "run \"") (name "serve_1")).LeavesNothing joinedSite
        site' ∧
      site'.bundle (name "serve_1") = some [1] ∧
      (site'.hosting.store.deployment (name "serve_1")).isSome = true) := by
  constructor
  · have hanswer : (exec 300 (registerNode (registerWith "PEM")) nodeJoined).map Prod.fst =
          some (.error 400 "Invalid RSA public key PEM") ∧
        (nodeJoined.node nodeB).isSome = false ∧
        ((storeAfter (registerNode (registerWith "PEM")) nodeJoined).node nodeB).isSome = true ∧
        nodeB ∈ (storeAfter (registerNode (registerWith "PEM")) nodeJoined).nodes := by
      decide +kernel
    obtain ⟨hrefused, hnew, hnode, hmember⟩ := hanswer
    have hanswers : Answers joinedSite _ _ _ := .register (runs_storeAfter hrefused)
    refine ⟨_, hanswers, fun hsame ↦ ?_, hnew, hnode, hmember⟩
    have hstore := congrArg (fun site ↦ (site.hosting.store.node nodeB).isSome) hsame
    exact Bool.false_ne_true (hnew.symm.trans (hstore.symm.trans hnode))
  · have hanswer : (joinedSite.serveDeploy (deployWith "run \"") (name "serve_1")).1 =
          .serverError ∧
        (joinedSite.serveDeploy (deployWith "run \"") (name "serve_1")).2.bundle
          (name "serve_1") = some [1] ∧
        ((joinedSite.serveDeploy (deployWith "run \"")
          (name "serve_1")).2.hosting.store.deployment (name "serve_1")).isSome = true := by
      decide +kernel
    obtain ⟨hrefused, hbundle, hrow⟩ := hanswer
    have hanswers : Answers joinedSite (.deploy (deployWith "run \"") (name "serve_1")) _ _ :=
      .deploy
    rw [hrefused] at hanswers
    refine ⟨_, hanswers, fun hsame ↦ ?_, hbundle, hrow⟩
    have hnone := congrFun (congrArg Site.bundle hsame) (name "serve_1")
    rw [hbundle] at hnone
    cases hnone

end TandemAio
