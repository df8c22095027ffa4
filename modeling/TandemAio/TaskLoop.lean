import TandemAio.BuildCache
import TandemAio.Worker

/-!
# `worker.rs`: the task loop of a worker

One turn of the loop for any replies of the server: what the worker requests, runs and reports, how
long it sleeps, and where it panics.
-/

namespace TandemAio

/-- What the libraries make of the node's inputs; an error is its text. -/
class NodeLibraries where
  /-- `B64.decode` -/
  decodeBase64 : List UInt8 → Except String (List UInt8)
  /-- `private_key.decrypt`, with OAEP padding. -/
  decryptOaep : List UInt8 → Except String (List UInt8)
  /-- `decrypt` of an AES-256-GCM cipher: key, nonce and ciphertext. -/
  decryptGcm : List UInt8 → List UInt8 → List UInt8 → Except String (List UInt8)

namespace TaskLoop

/-- `MIN_POLL_INTERVAL`, in seconds. -/
def minPollInterval : Nat := 1

/-- `MAX_POLL_INTERVAL`, in seconds. -/
def maxPollInterval : Nat := 10

/-! ## Replies -/

/-- The claim reply, as the worker parses it. -/
structure ClaimResponse where
  tid : String
  downloadUrl : String
  claimToken : String
  runtime : String
  taskName : Option String
  timeoutMs : Option UInt64

/-- The reply to a claim request; `task` is what `json` makes of the body. -/
structure ClaimReply where
  status : Nat
  task : Option ClaimResponse

structure DownloadReply where
  status : Nat
  encryptedDek : Option (List UInt8)
  iv : Option (List UInt8)
  /-- `none` when the body breaks off. -/
  body : Option (List UInt8)

/-- What a turn meets with: a reply to each of its requests, `none` when a request fails, and the
outcome of the execution and of the signature. -/
structure Replies [Sha256] where
  claim : Option ClaimReply
  download : Option DownloadReply
  /-- `none` when `execute_wasm` panics. -/
  execution : Option (Except String ExecutionResult)
  /-- The text of the `JoinError` of a panic. -/
  joinError : String
  signature : Except String String
  /-- The status of the reply to the report. -/
  report : Option Nat

/-- `is_success` -/
def isSuccess (status : Nat) : Bool := 200 ≤ status && status < 300

/-- `HeaderValue::to_str`: visible ASCII and tabs. -/
def headerText (value : List UInt8) : Option (List UInt8) :=
  if value.all fun b ↦ (32 ≤ b && b < 127) || b = 9 then some value else none

/-! ## Decryption -/

/-- The outcome of a call that may panic. -/
inductive Outcome (α : Type)
  | panics
  | error (message : String)
  | ok (value : α)

section Decryption

variable [NodeLibraries]

/-- `decrypt_dek` -/
def decryptDek (encryptedDek : List UInt8) : Except String (List UInt8) := do
  let ciphertext ← NodeLibraries.decodeBase64 encryptedDek
  NodeLibraries.decryptOaep ciphertext

/-- `decrypt_blob` -/
def decryptBlob (dek iv ciphertext : List UInt8) : Outcome (List UInt8) :=
  match NodeLibraries.decodeBase64 iv with
  | .error e => .error e
  | .ok nonce =>
    -- `Nonce::from_slice`
    if nonce.length ≠ 12 then .panics
    -- `Aes256Gcm::new_from_slice`
    else if dek.length ≠ 32 then .error "Invalid Length"
    else
      match NodeLibraries.decryptGcm dek nonce ciphertext with
      | .error e => .error ("AES-GCM decryption failed: " ++ e)
      | .ok plaintext => .ok plaintext

/-- The two headers, when both are there and can be read. -/
def DownloadReply.encryption (d : DownloadReply) : Option (List UInt8 × List UInt8) :=
  match d.encryptedDek.bind headerText, d.iv.bind headerText with
  | some dek, some iv => some (dek, iv)
  | _, _ => none

/-- The bytes to execute; an error is the failure to report. -/
def wasmBytes (d : DownloadReply) (raw : List UInt8) : Outcome (List UInt8) :=
  match d.encryption with
  | none => .ok raw
  | some (encryptedDek, iv) =>
    match decryptDek encryptedDek with
    | .error e => .error ("DEK decryption error: " ++ e)
    | .ok dek =>
      match decryptBlob dek iv raw with
      | .panics => .panics
      | .error e => .error ("decryption error: " ++ e)
      | .ok plain => .ok plain

end Decryption

/-! ## Turns -/

/-- What the worker does. -/
inductive Event [Sha256]
  | claim
  | sleep (seconds : Nat)
  | download (url : String)
  | execute (wasm : List UInt8) (timeoutMs : Option UInt64)
  /-- A result, with its signature. -/
  | reportSuccess (tid claimToken : String) (result : ExecutionResult) (signature : String)
      (accepted : Bool)
  | reportFailure (tid claimToken message : String) (accepted : Bool)

/-- A turn of the loop: what it does, and the back-off of the next one; `none` when it panics. -/
structure Turn [Sha256] where
  events : List Event
  backoff : Option Nat

section Turns

variable [Sha256]

/-- Whether the server accepts the report. -/
def Replies.accepts (r : Replies) : Bool := r.report.any isSuccess

/-- A failure report. -/
def reportFailure (task : ClaimResponse) (r : Replies) (message : String) : Event :=
  .reportFailure task.tid task.claimToken message r.accepts

/-- `report_success`; an execution that cannot be signed is not reported. -/
def reportSuccess (task : ClaimResponse) (r : Replies) (result : ExecutionResult) : List Event :=
  match r.signature with
  | .error _ => []
  | .ok signature => [.reportSuccess task.tid task.claimToken result signature r.accepts]

/-- The execution and its report. -/
def execute (task : ClaimResponse) (r : Replies) (wasm : List UInt8) : List Event :=
  .execute wasm task.timeoutMs ::
    match r.execution with
    | some (.ok result) => reportSuccess task r result
    | some (.error e) => [reportFailure task r e]
    | none => [reportFailure task r ("spawn_blocking error: " ++ r.joinError)]

variable [NodeLibraries]

/-- What is done with a claimed task, and whether the turn comes to its end. -/
def work (task : ClaimResponse) (r : Replies) : List Event × Bool :=
  match unsupportedRuntime task.runtime with
  | some message => ([reportFailure task r message], true)
  | none =>
    match r.download with
    | none => ([.download task.downloadUrl, reportFailure task r "blob download error"], true)
    | some d =>
      if isSuccess d.status = false then
        ([.download task.downloadUrl, reportFailure task r "blob download failed"], true)
      else
        match d.body with
        | none => ([.download task.downloadUrl, reportFailure task r "failed to read blob"], true)
        | some raw =>
          match wasmBytes d raw with
          | .panics => ([.download task.downloadUrl], false)
          | .error message => ([.download task.downloadUrl, reportFailure task r message], true)
          | .ok wasm => (.download task.downloadUrl :: execute task r wasm, true)

/-- The turn sleeps, and the next one sleeps longer. -/
def sleepTurn (backoff : Nat) : Turn :=
  ⟨[.claim, .sleep backoff], some (min (backoff * 2) maxPollInterval)⟩

/-- One turn of the loop of `task_loop`. -/
def turn (backoff : Nat) (r : Replies) : Turn :=
  match r.claim with
  | none => sleepTurn backoff
  | some reply =>
    if reply.status = 204 then sleepTurn backoff
    else if isSuccess reply.status = false then sleepTurn backoff
    else
      match reply.task with
      | none => ⟨[.claim], some minPollInterval⟩
      | some task =>
        let (events, ends) := work task r
        ⟨.claim :: events, if ends then some minPollInterval else none⟩

/-- The turns of `task_loop`, up to one that panics. -/
def turns (backoff : Nat) : List Replies → List Turn
  | [] => []
  | r :: rest =>
    turn backoff r ::
      match (turn backoff r).backoff with
      | none => []
      | some next => turns next rest

/-- `task_loop` -/
def taskLoop (replies : List Replies) : List Turn := turns minPollInterval replies

/-! ## What the replies lead to -/

/-- The task of a claim reply that parses. -/
def Replies.claimed (r : Replies) : Option ClaimResponse :=
  r.claim.bind fun reply ↦
    if reply.status = 204 ∨ isSuccess reply.status = false then none else reply.task

/-- There is nothing to claim, or the claim fails. -/
def Replies.Idle (r : Replies) : Prop :=
  ∀ reply, r.claim = some reply → reply.status = 204 ∨ isSuccess reply.status = false

/-- A task has come with its payload. -/
structure Replies.Delivers (r : Replies) (task : ClaimResponse) (d : DownloadReply)
    (raw : List UInt8) : Prop where
  claimed : r.claimed = some task
  runtime : task.runtime = "wasm"
  download : r.download = some d
  success : isSuccess d.status = true
  body : d.body = some raw

/-- The key of the payload is unwrapped, and its nonce has not twelve bytes. -/
def Replies.BadNonce (r : Replies) : Prop :=
  ∃ task d raw encryptedDek iv dek nonce, r.Delivers task d raw ∧
    d.encryption = some (encryptedDek, iv) ∧ decryptDek encryptedDek = .ok dek ∧
    NodeLibraries.decodeBase64 iv = .ok nonce ∧ nonce.length ≠ 12

/-- The payload can be executed. -/
def Replies.Executes (r : Replies) : Prop :=
  ∃ task d raw wasm, r.Delivers task d raw ∧ wasmBytes d raw = .ok wasm

/-- The worker has nothing to do, or it executes a task and the server accepts its report. -/
def Replies.Paced (r : Replies) : Prop :=
  r.Idle ∨ r.Executes ∧ r.accepts = true ∧
    ∀ result, r.execution = some (.ok result) → ∃ signature, r.signature = .ok signature

/-- The replies up to the first with a bad nonce. -/
inductive Replies.Reached (r : Replies) : List Replies → Prop
  | head {rest : List Replies} : Reached r (r :: rest)
  | tail {r' : Replies} {rest : List Replies} : ¬r'.BadNonce → Reached r rest →
      Reached r (r' :: rest)

/-! ## One turn -/

def Event.isReport : Event → Bool
  | .reportSuccess .. | .reportFailure .. => true
  | _ => false

/-- A report that the server accepts. -/
def Event.accepted : Event → Bool
  | .reportSuccess _ _ _ _ accepted | .reportFailure _ _ _ accepted => accepted
  | _ => false

def Turn.reports (t : Turn) : Nat := t.events.countP Event.isReport

/-- The turn sleeps, or it executes a task and the server accepts the report. -/
def Turn.Rests (t : Turn) : Prop :=
  (∃ seconds, .sleep seconds ∈ t.events ∧ minPollInterval ≤ seconds) ∨
    (∃ wasm timeoutMs, .execute wasm timeoutMs ∈ t.events) ∧ ∃ e ∈ t.events, e.accepted = true

/-- The turn sleeps no shorter and no longer than the poll intervals, and so does the next one. -/
def Turn.Bounded (t : Turn) : Prop :=
  (∀ seconds, .sleep seconds ∈ t.events →
    minPollInterval ≤ seconds ∧ seconds ≤ maxPollInterval) ∧
  ∀ backoff, t.backoff = some backoff → minPollInterval ≤ backoff ∧ backoff ≤ maxPollInterval

variable {r : Replies} {task : ClaimResponse} {backoff : Nat}

omit [Sha256] [NodeLibraries] in
theorem unsupportedRuntime_eq_none {runtime : String} :
    unsupportedRuntime runtime = none ↔ runtime = "wasm" := by
  unfold unsupportedRuntime
  split
  · rename_i hne
    simp [hne]
  · rename_i heq
    simpa using heq

/-- The two shapes of a turn. -/
theorem turn_cases (backoff : Nat) (r : Replies) :
    (r.Idle ∧ r.claimed = none ∧ turn backoff r = sleepTurn backoff) ∨
      (¬r.Idle ∧ r.claimed = none ∧ turn backoff r = ⟨[.claim], some minPollInterval⟩) ∨
      ∃ task, ¬r.Idle ∧ r.claimed = some task ∧ turn backoff r =
        ⟨.claim :: (work task r).1, if (work task r).2 then some minPollInterval else none⟩ := by
  cases hclaim : r.claim with
  | none =>
    left
    refine ⟨?_, ?_, ?_⟩
    · intro reply hreply
      rw [hclaim] at hreply
      cases hreply
    · unfold Replies.claimed
      rw [hclaim]
      rfl
    · unfold turn
      rw [hclaim]
  | some reply =>
    by_cases hidle : reply.status = 204 ∨ isSuccess reply.status = false
    · left
      refine ⟨?_, ?_, ?_⟩
      · intro reply' hreply
        rw [hclaim] at hreply
        cases hreply
        exact hidle
      · unfold Replies.claimed
        rw [hclaim, Option.bind_some, if_pos hidle]
      · unfold turn
        rw [hclaim]
        dsimp only
        rcases hidle with h204 | hfailed
        · rw [if_pos h204]
        · by_cases h204 : reply.status = 204
          · rw [if_pos h204]
          · rw [if_neg h204, if_pos hfailed]
    · right
      have hnot : ¬r.Idle := fun h ↦ hidle (h reply hclaim)
      rw [not_or] at hidle
      have hclaimed : r.claimed = reply.task := by
        unfold Replies.claimed
        rw [hclaim, Option.bind_some, if_neg (not_or.mpr hidle)]
      cases htask : reply.task with
      | none =>
        left
        refine ⟨hnot, hclaimed.trans htask, ?_⟩
        unfold turn
        rw [hclaim]
        dsimp only
        rw [if_neg hidle.1, if_neg hidle.2, htask]
      | some task =>
        right
        refine ⟨task, hnot, hclaimed.trans htask, ?_⟩
        unfold turn
        rw [hclaim]
        dsimp only
        rw [if_neg hidle.1, if_neg hidle.2, htask]

omit [Sha256] in
theorem decryptBlob_panics {dek iv ciphertext : List UInt8} :
    decryptBlob dek iv ciphertext = .panics ↔
      ∃ nonce, NodeLibraries.decodeBase64 iv = .ok nonce ∧ nonce.length ≠ 12 := by
  unfold decryptBlob
  cases hiv : NodeLibraries.decodeBase64 iv with
  | error e => simp
  | ok nonce =>
    dsimp only
    by_cases hlength : nonce.length ≠ 12
    · rw [if_pos hlength]
      exact ⟨fun _ ↦ ⟨nonce, rfl, hlength⟩, fun _ ↦ rfl⟩
    · rw [if_neg hlength]
      constructor
      · intro h
        split at h
        · cases h
        · split at h
          · cases h
          · cases h
      · rintro ⟨nonce', heq, hlength'⟩
        cases heq
        exact absurd hlength' hlength

omit [Sha256] in
/-- The one conversion that panics. -/
theorem wasmBytes_panics {d : DownloadReply} {raw : List UInt8} :
    wasmBytes d raw = .panics ↔ ∃ encryptedDek iv dek nonce,
      d.encryption = some (encryptedDek, iv) ∧ decryptDek encryptedDek = .ok dek ∧
      NodeLibraries.decodeBase64 iv = .ok nonce ∧ nonce.length ≠ 12 := by
  unfold wasmBytes
  cases hencryption : d.encryption with
  | none => simp
  | some headers =>
    obtain ⟨encryptedDek, iv⟩ := headers
    dsimp only
    cases hdek : decryptDek encryptedDek with
    | error e =>
      constructor
      · intro h
        cases h
      · rintro ⟨encryptedDek', iv', dek, nonce, heq, hdek', -⟩
        cases heq
        rw [hdek] at hdek'
        cases hdek'
    | ok dek =>
      have hblob := @decryptBlob_panics _ dek iv raw
      dsimp only
      constructor
      · intro h
        cases hdecrypted : decryptBlob dek iv raw with
        | panics =>
          obtain ⟨nonce, hnonce, hlength⟩ := hblob.mp hdecrypted
          exact ⟨encryptedDek, iv, dek, nonce, rfl, hdek, hnonce, hlength⟩
        | error e =>
          rw [hdecrypted] at h
          cases h
        | ok plain =>
          rw [hdecrypted] at h
          cases h
      · rintro ⟨encryptedDek', iv', dek', nonce, heq, -, hnonce, hlength⟩
        cases heq
        rw [hblob.mpr ⟨nonce, hnonce, hlength⟩]

omit [NodeLibraries] in
theorem Replies.Delivers.unique {task' : ClaimResponse} {d d' : DownloadReply}
    {raw raw' : List UInt8} (h : r.Delivers task d raw) (h' : r.Delivers task' d' raw') :
    task = task' ∧ d = d' ∧ raw = raw' := by
  have htask := h.claimed.symm.trans h'.claimed
  have hd := h.download.symm.trans h'.download
  cases htask
  cases hd
  have hraw := h.body.symm.trans h'.body
  cases hraw
  exact ⟨rfl, rfl, rfl⟩

theorem Replies.Delivers.badNonce_iff {d : DownloadReply} {raw : List UInt8}
    (h : r.Delivers task d raw) : r.BadNonce ↔ wasmBytes d raw = .panics := by
  rw [wasmBytes_panics]
  constructor
  · rintro ⟨task', d', raw', encryptedDek, iv, dek, nonce, h', hbad⟩
    obtain ⟨-, rfl, -⟩ := h.unique h'
    exact ⟨encryptedDek, iv, dek, nonce, hbad⟩
  · rintro ⟨encryptedDek, iv, dek, nonce, hbad⟩
    exact ⟨task, d, raw, encryptedDek, iv, dek, nonce, h, hbad⟩

theorem Replies.Delivers.executes_iff {d : DownloadReply} {raw : List UInt8}
    (h : r.Delivers task d raw) : r.Executes ↔ ∃ wasm, wasmBytes d raw = .ok wasm := by
  constructor
  · rintro ⟨task', d', raw', wasm, h', hwasm⟩
    obtain ⟨-, rfl, rfl⟩ := h.unique h'
    exact ⟨wasm, hwasm⟩
  · rintro ⟨wasm, hwasm⟩
    exact ⟨task, d, raw, wasm, h, hwasm⟩

/-- A task that does not come with its payload is not executed. -/
theorem Replies.not_delivered (h : ∀ task d raw, ¬r.Delivers task d raw) :
    ¬r.BadNonce ∧ ¬r.Executes := by
  constructor
  · rintro ⟨task, d, raw, _, _, _, _, hdelivers, -⟩
    exact h task d raw hdelivers
  · rintro ⟨task, d, raw, _, hdelivers, -⟩
    exact h task d raw hdelivers

/-- What is done with a task: its failure is reported before it is executed, or its payload has a
bad nonce, or it is executed. -/
theorem work_cases (hclaimed : r.claimed = some task) :
    (¬r.BadNonce ∧ ¬r.Executes ∧ ∃ before message, (∀ e ∈ before, ∃ url, e = .download url) ∧
      work task r = (before ++ [reportFailure task r message], true)) ∨
    (r.BadNonce ∧ work task r = ([.download task.downloadUrl], false)) ∨
    ∃ wasm, ¬r.BadNonce ∧ r.Executes ∧
      work task r = (.download task.downloadUrl :: execute task r wasm, true) := by
  have hsame : ∀ {task' d raw}, r.Delivers task' d raw → task' = task := by
    intro task' d raw h
    have htask := h.claimed.symm.trans hclaimed
    cases htask
    rfl
  have hone : ∀ e ∈ [Event.download task.downloadUrl], ∃ url, e = .download url := by
    intro e he
    exact ⟨task.downloadUrl, List.mem_singleton.mp he⟩
  unfold work
  cases hruntime : unsupportedRuntime task.runtime with
  | some message =>
    left
    have hnever := Replies.not_delivered (r := r) fun task' d raw h ↦ by
      have hwasm := h.runtime
      rw [hsame h] at hwasm
      rw [unsupportedRuntime_eq_none.mpr hwasm] at hruntime
      cases hruntime
    exact ⟨hnever.1, hnever.2, [], message, fun e he ↦ (List.not_mem_nil he).elim, rfl⟩
  | none =>
    have hwasm := unsupportedRuntime_eq_none.mp hruntime
    cases hdownload : r.download with
    | none =>
      left
      have hnever := Replies.not_delivered (r := r) fun task' d raw h ↦ by
        have hd := h.download
        rw [hdownload] at hd
        cases hd
      exact ⟨hnever.1, hnever.2, [.download task.downloadUrl], "blob download error", hone, rfl⟩
    | some d =>
      dsimp only
      by_cases hsuccess : isSuccess d.status = false
      · rw [if_pos hsuccess]
        left
        have hnever := Replies.not_delivered (r := r) fun task' d' raw h ↦ by
          have hd := h.download
          rw [hdownload] at hd
          cases hd
          rw [h.success] at hsuccess
          cases hsuccess
        exact ⟨hnever.1, hnever.2, [.download task.downloadUrl], "blob download failed", hone,
          rfl⟩
      · rw [if_neg hsuccess]
        rw [Bool.not_eq_false] at hsuccess
        cases hbody : d.body with
        | none =>
          left
          have hnever := Replies.not_delivered (r := r) fun task' d' raw h ↦ by
            have hd := h.download
            rw [hdownload] at hd
            cases hd
            have hraw := h.body
            rw [hbody] at hraw
            cases hraw
          exact ⟨hnever.1, hnever.2, [.download task.downloadUrl], "failed to read blob", hone,
            rfl⟩
        | some raw =>
          have hdelivers : r.Delivers task d raw := ⟨hclaimed, hwasm, hdownload, hsuccess, hbody⟩
          rw [hdelivers.badNonce_iff, hdelivers.executes_iff]
          dsimp only
          cases hbytes : wasmBytes d raw with
          | panics => exact .inr (.inl ⟨rfl, rfl⟩)
          | error message =>
            left
            refine ⟨by simp, by simp, [.download task.downloadUrl], message, hone, rfl⟩
          | ok wasm => exact .inr (.inr ⟨wasm, by simp, ⟨wasm, rfl⟩, rfl⟩)

theorem Replies.not_delivered_of_claimed (h : r.claimed = none) : ¬r.BadNonce ∧ ¬r.Executes := by
  apply Replies.not_delivered
  intro task d raw hdelivers
  rw [hdelivers.claimed] at h
  cases h

omit [NodeLibraries] in
/-- An execution is reported, unless its result cannot be signed. -/
theorem execute_cases (task : ClaimResponse) (r : Replies) (wasm : List UInt8) :
    (∃ e : Event, execute task r wasm = [.execute wasm task.timeoutMs, e] ∧ e.isReport = true ∧
      e.accepted = r.accepts ∧ (∀ seconds, e ≠ .sleep seconds) ∧
      ∀ result, r.execution = some (.ok result) → ∃ signature, r.signature = .ok signature) ∨
    (execute task r wasm = [.execute wasm task.timeoutMs] ∧
      (∃ result, r.execution = some (.ok result)) ∧ ∃ e, r.signature = .error e) := by
  unfold execute
  cases hexecution : r.execution with
  | none =>
    left
    exact ⟨_, rfl, rfl, rfl, by simp [reportFailure], by simp⟩
  | some outcome =>
    cases outcome with
    | error e =>
      left
      exact ⟨_, rfl, rfl, rfl, by simp [reportFailure], by simp⟩
    | ok result =>
      dsimp only
      unfold reportSuccess
      cases hsignature : r.signature with
      | error e => exact .inr ⟨rfl, ⟨result, rfl⟩, e, rfl⟩
      | ok signature =>
        left
        exact ⟨_, rfl, rfl, rfl, by simp, fun _ _ ↦ ⟨signature, rfl⟩⟩

/-- A turn panics over a bad nonce, and over nothing else. -/
theorem turn_panics_iff (backoff : Nat) (r : Replies) :
    (turn backoff r).backoff = none ↔ r.BadNonce := by
  rcases turn_cases backoff r with ⟨-, hnone, hturn⟩ | ⟨-, hnone, hturn⟩ |
    ⟨task, -, hclaimed, hturn⟩
  · rw [hturn]
    have hgood := (Replies.not_delivered_of_claimed hnone).1
    simp [sleepTurn, hgood]
  · rw [hturn]
    have hgood := (Replies.not_delivered_of_claimed hnone).1
    simp [hgood]
  · rw [hturn]
    rcases work_cases hclaimed with ⟨hgood, -, before, message, -, hwork⟩ |
      ⟨hbad, hwork⟩ | ⟨wasm, hgood, -, hwork⟩
    · simp [hwork, hgood]
    · simp [hwork, hbad]
    · simp [hwork, hgood]

/-- A turn comes to its end, and reports a claimed task once, unless it meets a bad nonce. -/
theorem turn_sound_iff (backoff : Nat) (r : Replies) :
    ((turn backoff r).backoff ≠ none ∧ (r.claimed ≠ none →
      (∃ signature, r.signature = .ok signature) → (turn backoff r).reports = 1)) ↔
      ¬r.BadNonce := by
  rw [ne_eq, turn_panics_iff]
  refine ⟨fun h ↦ h.1, fun hgood ↦ ⟨hgood, ?_⟩⟩
  intro hclaim hsigned
  rcases turn_cases backoff r with ⟨-, hnone, -⟩ | ⟨-, hnone, -⟩ | ⟨task, -, hclaimed, hturn⟩
  · exact absurd hnone hclaim
  · exact absurd hnone hclaim
  · rw [hturn]
    unfold Turn.reports
    rcases work_cases hclaimed with ⟨-, -, before, message, hbefore, hwork⟩ |
      ⟨hbad, -⟩ | ⟨wasm, -, -, hwork⟩
    · rw [hwork]
      have hzero : before.countP Event.isReport = 0 := by
        apply List.countP_eq_zero.mpr
        intro e he
        obtain ⟨url, rfl⟩ := hbefore e he
        simp [Event.isReport]
      rw [List.countP_cons_of_neg (by simp [Event.isReport]), List.countP_append, hzero]
      rfl
    · exact absurd hbad hgood
    · rw [hwork]
      obtain ⟨signature, hsignature⟩ := hsigned
      rcases execute_cases task r wasm with ⟨e, hexecute, hreport, -⟩ | ⟨-, -, e, herror⟩
      · rw [hexecute, List.countP_cons_of_neg (by simp [Event.isReport]),
          List.countP_cons_of_neg (by simp [Event.isReport]),
          List.countP_cons_of_neg (by simp [Event.isReport]), List.countP_cons_of_pos hreport,
          List.countP_nil]
      · rw [hsignature] at herror
        cases herror

/-- A turn that comes to its end rests exactly when it is paced. -/
theorem turn_rests_iff (hbackoff : minPollInterval ≤ backoff)
    (hend : (turn backoff r).backoff ≠ none) : (turn backoff r).Rests ↔ r.Paced := by
  rcases turn_cases backoff r with ⟨hidle, -, hturn⟩ | ⟨hidle, hnone, hturn⟩ |
    ⟨task, hidle, hclaimed, hturn⟩
  · rw [hturn]
    refine ⟨fun _ ↦ .inl hidle, fun _ ↦ .inl ⟨backoff, ?_, hbackoff⟩⟩
    exact List.mem_cons_of_mem _ List.mem_cons_self
  · rw [hturn]
    constructor
    · rintro (⟨seconds, hsleep, -⟩ | ⟨⟨wasm, timeoutMs, hexecute⟩, -⟩)
      · simp at hsleep
      · simp at hexecute
    · rintro (h | ⟨h, -⟩)
      · exact absurd h hidle
      · exact absurd h (Replies.not_delivered_of_claimed hnone).2
  · rcases work_cases hclaimed with ⟨-, hnot, before, message, hbefore, hwork⟩ |
      ⟨-, hwork⟩ | ⟨wasm, -, hexecutes, hwork⟩
    · rw [hturn, hwork]
      have hother : ∀ e ∈ (.claim :: (before ++ [reportFailure task r message]) : List Event),
          (∀ seconds, e ≠ .sleep seconds) ∧ ∀ wasm timeoutMs, e ≠ .execute wasm timeoutMs := by
        intro e he
        rcases List.mem_cons.mp he with rfl | he
        · simp
        · rcases List.mem_append.mp he with he | he
          · obtain ⟨url, rfl⟩ := hbefore e he
            simp
          · rw [List.mem_singleton.mp he]
            simp [reportFailure]
      constructor
      · rintro (⟨seconds, hsleep, -⟩ | ⟨⟨wasm, timeoutMs, hexecute⟩, -⟩)
        · exact absurd rfl ((hother _ hsleep).1 seconds)
        · exact absurd rfl ((hother _ hexecute).2 wasm timeoutMs)
      · rintro (h | ⟨h, -⟩)
        · exact absurd h hidle
        · exact absurd h hnot
    · rw [hturn, hwork] at hend
      exact absurd rfl hend
    · rw [hturn, hwork]
      rcases execute_cases task r wasm with ⟨e, hexecute, -, haccepted, hsleep, hsigned⟩ |
        ⟨hexecute, ⟨result, hresult⟩, message, herror⟩
      · rw [hexecute]
        constructor
        · rintro (⟨seconds, hmem, -⟩ | ⟨-, e', hmem, haccepted'⟩)
          · have heq : e = .sleep seconds := by simpa [eq_comm] using hmem
            exact absurd heq (hsleep seconds)
          · right
            refine ⟨hexecutes, ?_, hsigned⟩
            have hcases : e' = .claim ∨ e' = .download task.downloadUrl ∨
                e' = .execute wasm task.timeoutMs ∨ e' = e := by simpa using hmem
            rcases hcases with rfl | rfl | rfl | rfl
            · cases haccepted'
            · cases haccepted'
            · cases haccepted'
            · rw [← haccepted]
              exact haccepted'
        · rintro (h | ⟨-, haccepts, -⟩)
          · exact absurd h hidle
          · right
            refine ⟨⟨wasm, task.timeoutMs, by simp⟩, e, by simp, ?_⟩
            rw [haccepted]
            exact haccepts
      · rw [hexecute]
        constructor
        · rintro (⟨seconds, hmem, -⟩ | ⟨-, e', hmem, haccepted'⟩)
          · simp at hmem
          · have hcases : e' = .claim ∨ e' = .download task.downloadUrl ∨
                e' = .execute wasm task.timeoutMs := by simpa using hmem
            rcases hcases with rfl | rfl | rfl
            · cases haccepted'
            · cases haccepted'
            · cases haccepted'
        · rintro (h | ⟨-, -, hsigned⟩)
          · exact absurd h hidle
          · obtain ⟨signature, hsignature⟩ := hsigned result hresult
            rw [hsignature] at herror
            cases herror

theorem turn_bounded (hmin : minPollInterval ≤ backoff) (hmax : backoff ≤ maxPollInterval)
    (r : Replies) : (turn backoff r).Bounded := by
  have hreset : minPollInterval ≤ minPollInterval ∧ minPollInterval ≤ maxPollInterval := by
    decide
  rcases turn_cases backoff r with ⟨-, -, hturn⟩ | ⟨-, -, hturn⟩ | ⟨task, -, hclaimed, hturn⟩
  · rw [hturn]
    constructor
    · intro seconds hsleep
      have heq : seconds = backoff := by simpa [sleepTurn] using hsleep
      rw [heq]
      exact ⟨hmin, hmax⟩
    · intro next hnext
      have heq : min (backoff * 2) maxPollInterval = next := Option.some.inj hnext
      unfold minPollInterval maxPollInterval at *
      omega
  · rw [hturn]
    refine ⟨fun seconds hsleep ↦ by simp at hsleep, fun next hnext ↦ ?_⟩
    cases hnext
    exact hreset
  · rw [hturn]
    constructor
    · intro seconds hsleep
      rcases List.mem_cons.mp hsleep with h | hsleep
      · cases h
      · exfalso
        rcases work_cases hclaimed with ⟨-, -, before, message, hbefore, hwork⟩ |
          ⟨-, hwork⟩ | ⟨wasm, -, -, hwork⟩
        · rw [hwork] at hsleep
          rcases List.mem_append.mp hsleep with h | h
          · obtain ⟨url, hurl⟩ := hbefore _ h
            cases hurl
          · cases List.mem_singleton.mp h
        · rw [hwork] at hsleep
          cases List.mem_singleton.mp hsleep
        · rw [hwork] at hsleep
          rcases execute_cases task r wasm with ⟨e, hexecute, -, -, hnot, -⟩ | ⟨hexecute, -⟩
          · rw [hexecute] at hsleep
            have heq : e = .sleep seconds := by simpa [eq_comm] using hsleep
            exact hnot seconds heq
          · rw [hexecute] at hsleep
            simp at hsleep
    · intro next hnext
      dsimp only at hnext
      split at hnext
      · cases hnext
        exact hreset
      · cases hnext

/-! ## The loop -/

/-- Every turn comes to its end and reports a claimed task once exactly when no payload with a bad
nonce arrives. -/
theorem taskLoop_sound_iff (replies : List Replies) :
    (∀ p ∈ replies.zip (taskLoop replies), p.2.backoff ≠ none ∧ (p.1.claimed ≠ none →
      (∃ signature, p.1.signature = .ok signature) → p.2.reports = 1)) ↔
      ∀ r ∈ replies, ¬r.BadNonce := by
  have hall : ∀ backoff, (∀ p ∈ replies.zip (turns backoff replies), p.2.backoff ≠ none ∧
      (p.1.claimed ≠ none → (∃ signature, p.1.signature = .ok signature) → p.2.reports = 1)) ↔
        ∀ r ∈ replies, ¬r.BadNonce := by
    induction replies with
    | nil => simp
    | cons r rest ih =>
      intro backoff
      rw [turns, List.zip_cons_cons, List.forall_mem_cons, List.forall_mem_cons,
        turn_sound_iff backoff r]
      apply and_congr_right
      intro hgood
      obtain ⟨next, hnext⟩ := Option.ne_none_iff_exists'.mp
        ((turn_sound_iff backoff r).mpr hgood).1
      rw [hnext]
      exact ih next
  exact hall minPollInterval

/-- Between two claims the loop executes a task whose report is accepted, or sleeps, exactly when
the replies pace it; its back-off is always between the poll intervals. -/
theorem taskLoop_rests_iff (replies : List Replies) :
    ((∀ t ∈ taskLoop replies, t.backoff ≠ none → t.Rests) ∧
      ∀ t ∈ taskLoop replies, t.Bounded) ↔
      ∀ r : Replies, r.Reached replies → r.BadNonce ∨ r.Paced := by
  have hall : ∀ backoff, minPollInterval ≤ backoff → backoff ≤ maxPollInterval →
      (∀ t ∈ turns backoff replies, t.Bounded) ∧
        ((∀ t ∈ turns backoff replies, t.backoff ≠ none → t.Rests) ↔
          ∀ r : Replies, r.Reached replies → r.BadNonce ∨ r.Paced) := by
    induction replies with
    | nil =>
      intro backoff _ _
      refine ⟨by simp [turns], fun _ r hreached ↦ ?_, by simp [turns]⟩
      cases hreached
    | cons r rest ih =>
      intro backoff hmin hmax
      have hbounded := turn_bounded hmin hmax r
      rw [turns, List.forall_mem_cons, List.forall_mem_cons]
      cases hnext : (turn backoff r).backoff with
      | none =>
        -- the loop ends with this turn
        have hbad := (turn_panics_iff backoff r).mp hnext
        refine ⟨⟨hbounded, by simp⟩, fun _ ↦ ?_, fun _ ↦ ⟨fun h ↦ absurd rfl h, by simp⟩⟩
        intro r' hreached
        cases hreached with
        | head => exact .inl hbad
        | tail hgood _ => exact absurd hbad hgood
      | some next =>
        obtain ⟨hmin', hmax'⟩ := hbounded.2 next hnext
        obtain ⟨hrestBounded, hrest⟩ := ih next hmin' hmax'
        have hend : (turn backoff r).backoff ≠ none := by rw [hnext]; exact Option.some_ne_none _
        have hrests := turn_rests_iff hmin hend
        have hgood : ¬r.BadNonce := fun hbad ↦ hend ((turn_panics_iff backoff r).mpr hbad)
        refine ⟨⟨hbounded, hrestBounded⟩, ?_⟩
        constructor
        · rintro ⟨hhead, htail⟩ r' hreached
          cases hreached with
          | head => exact .inr (hrests.mp (hhead (Option.some_ne_none _)))
          | tail _ hreached => exact hrest.mp htail r' hreached
        · intro h
          refine ⟨fun _ ↦ ?_, hrest.mpr fun r' hreached ↦ h r' (.tail hgood hreached)⟩
          exact hrests.mpr ((h r .head).resolve_left hgood)
  obtain ⟨hbounded, hiff⟩ := hall minPollInterval (by decide) (by decide)
  exact ⟨fun h ↦ hiff.mp h.1, fun h ↦ ⟨hiff.mpr h, hbounded⟩⟩

end Turns

/-! ## A reply that is no task, and a nonce of one byte -/

namespace Sample

/-- Libraries that take text for what it encodes. -/
scoped instance plainLibraries : NodeLibraries where
  decodeBase64 text := .ok text
  decryptOaep ciphertext := .ok ciphertext
  decryptGcm _ _ ciphertext := .ok ciphertext

open CacheSample

def cubeTask : ClaimResponse where
  tid := "tid_1"
  downloadUrl := "http://server/nodes/tasks/tid_1/download/d"
  claimToken := "c"
  runtime := "wasm"
  taskName := none
  timeoutMs := none

/-- A claim reply that does not parse. -/
def brokenClaim : Replies where
  claim := some ⟨200, none⟩
  download := none
  execution := none
  joinError := ""
  signature := .ok ""
  report := none

/-- A key that is unwrapped, with a nonce of one byte. -/
def shortNonce : Replies where
  claim := some ⟨200, some cubeTask⟩
  download := some ⟨200, some (List.replicate 32 65), some [65], some []⟩
  execution := none
  joinError := ""
  signature := .ok ""
  report := some 200

end Sample

end TaskLoop

open TaskLoop TaskLoop.Sample CacheSample in
/-- A claim reply that does not parse is followed by the next claim at once. -/
theorem taskLoop_spins : ¬∀ replies : List Replies, ∀ t ∈ taskLoop replies, t.backoff ≠ none →
    t.Rests := by
  intro h
  have hrests := h [brokenClaim] ⟨[.claim], some minPollInterval⟩ (by simp [taskLoop, turns, turn,
    brokenClaim, isSuccess]) (by simp)
  rcases hrests with ⟨seconds, hsleep, -⟩ | ⟨⟨wasm, timeoutMs, hexecute⟩, -⟩
  · simp at hsleep
  · simp at hexecute

open TaskLoop TaskLoop.Sample CacheSample in
/-- A nonce of one byte ends the loop. -/
theorem taskLoop_panics : ¬∀ replies : List Replies, ∀ t ∈ taskLoop replies, t.backoff ≠ none := by
  intro h
  have hbad : shortNonce.BadNonce :=
    ⟨cubeTask, _, [], List.replicate 32 65, [65], List.replicate 32 65, [65],
      ⟨rfl, rfl, rfl, rfl, rfl⟩, rfl, rfl, rfl, by simp⟩
  exact h [shortNonce] (turn minPollInterval shortNonce) (by simp [taskLoop, turns])
    ((turn_panics_iff minPollInterval shortNonce).mpr hbad)

end TandemAio
