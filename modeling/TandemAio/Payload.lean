import TandemAio.Coherence
import TandemAio.Worker

/-!
# Payloads

A payload is on disk as ciphertext, and its key is wrapped once, for the node the task is planned
for.  The first download takes the key row with it, and no requeue writes another.
-/

open Reasoning Reasoning.Prog

namespace TandemAio

/-- A download of `t` by `n` that is answered with its payload. -/
def Entry.downloads (e : Entry) (n : NodeId) (t : Tid) : Prop :=
  (∃ auth token, e.action = .download auth t token ∧ auth.nodeId = some n) ∧
    e.response.refusal = false

/-- The file of a task is one of its own. -/
def OwnBlobs (s : Store) : Prop :=
  ∀ t task, s.task t = some task → ∃ j f, task.blobPath = .task j t f

/-- The ciphertext of a task that was created is in its file until the task is finished. -/
def Kept (a : CreateTask) (s : Store) : Prop :=
  ∀ task, s.task a.tid = some task → task.blobPath = a.blobPath ∧
    (task.status.finished = false → s.file a.blobPath = some (.aesGcm a.dek a.iv a.payload))

variable {s s' : Store} {l : Label}

/-! ## Files -/

theorem OwnBlobs.move (h : OwnBlobs s) (hm : Move s l s') : OwnBlobs s' := by
  intro t task' ht
  rcases hm.task_cases ht with ⟨hs, -⟩ | ⟨a, rfl, rfl, rfl⟩ | ⟨task, hs, he⟩
  · exact h t task' hs
  · exact ⟨a.jobId, a.filename, rfl⟩
  · -- no edit changes the path of the file
    have hpath : task'.blobPath = task.blobPath := by
      cases he <;> rfl
    rw [hpath]
    exact h t task hs

/-- Only the creation and the end of a task write or drop its file. -/
theorem Move.file_frame (hm : Move s l s') (hown : OwnBlobs s) {t : Tid} {j : JobId} {f : String}
    (hcreate : ∀ a, l = .createTask a → a.tid ≠ t) (hcomplete : ∀ n bytes, l ≠ .complete n t bytes)
    (hfail : ∀ n, l ≠ .fail n t) : s'.file (.task j t f) = s.file (.task j t f) := by
  cases hm with
  | createTask a =>
    have hne : Path.task j t f ≠ a.blobPath := by
      intro he
      exact hcreate a rfl (Path.task.inj he).2.1.symm
    rw [Store.create_file, Function.update_of_ne hne]
  | @complete n _ tid task _ bytes _ ht =>
    obtain ⟨j', f', hpath⟩ := hown tid task ht
    have hne : Path.task j t f ≠ task.blobPath := by
      rw [hpath]
      intro he
      exact hcomplete n bytes (by rw [(Path.task.inj he).2.1])
    have hresult : Path.task j t f ≠ .result task.jobId tid := by
      intro he
      cases he
    rw [Store.complete_file, Function.update_of_ne hne, Function.update_of_ne hresult]
  | @fail n _ tid task _ _ _ ht =>
    obtain ⟨j', f', hpath⟩ := hown tid task ht
    have hne : Path.task j t f ≠ task.blobPath := by
      rw [hpath]
      intro he
      exact hfail n (by rw [(Path.task.inj he).2.1])
    rw [Store.fail_file, Function.update_of_ne hne]
  | _ => rfl

theorem Kept.move {a : CreateTask} (h : Kept a s) (hcoh : Coherent s) (hown : OwnBlobs s)
    (hm : Move s l s') (hnew : ∀ a', l = .createTask a' → a'.tid ≠ a.tid) : Kept a s' := by
  intro task' ht'
  -- the file stays as it is when the move is not an end of the task
  have hframe : (∀ n bytes, l ≠ .complete n a.tid bytes) → (∀ n, l ≠ .fail n a.tid) →
      s'.file a.blobPath = s.file a.blobPath := fun hc hf ↦ hm.file_frame hown hnew hc hf
  rcases hm.task_cases ht' with ⟨hs, hno⟩ | ⟨a', hl, ht, -⟩ | ⟨task, hs, he⟩
  · have hother : ∀ l', l'.tid? = some a.tid → (∀ key, l' ≠ .discard key a.tid) → l ≠ l' := by
      rintro l' htid hdiscard rfl
      rcases hno with hne | ⟨key, hk⟩
      · exact hne htid
      · exact hdiscard key hk
    rw [hframe (fun n bytes ↦ hother _ rfl nofun) fun n ↦ hother _ rfl nofun]
    exact h task' hs
  · exact absurd ht (hnew a' hl)
  · obtain ⟨hpath, hfile⟩ := h task hs
    have hsame : task'.blobPath = task.blobPath := by
      cases he <;> rfl
    refine ⟨hsame.trans hpath, fun hopen ↦ ?_⟩
    -- a task that is open after the move was open before it
    have hbefore : task.status.finished = false := by
      by_contra hfin
      rcases hcoh.finished_final hm hs (by simpa using hfin) with hfinal | hgone
      · rw [ht', Option.some.injEq] at hfinal
        rw [← hfinal, hopen] at hfin
        exact hfin rfl
      · rw [ht'] at hgone
        cases hgone
    refine (hframe (fun n bytes hl ↦ ?_) fun n hl ↦ ?_).trans (hfile hbefore)
    · subst hl
      cases he with
      | complete => cases hopen
      | requeue hr => cases hr
    · subst hl
      cases he with
      | fail => cases hopen
      | requeue hr => cases hr

/-! ## Key rows -/

/-- A key row is written with its task and dropped after a download of it. -/
theorem Move.key_frame (hm : Move s l s') {t : Tid} (hnew : ∀ a, l = .createTask a → a.tid ≠ t)
    (hunwrap : l ≠ .unwrap t) : s'.taskEncryptionKey t = s.taskEncryptionKey t := by
  cases hm with
  | createTask a =>
    rw [Store.create_taskEncryptionKey, Store.putRow_taskEncryptionKey]
    cases a.keyRow s.nodePublicKey with
    | none => rfl
    | some row => exact Function.update_of_ne (hnew a rfl).symm _ _
  | unwrap tid =>
    have hne : t ≠ tid := fun he ↦ hunwrap (by rw [he])
    rw [Store.dropTaskKey_taskEncryptionKey, Function.update_of_ne hne]
  | _ => rfl

theorem Move.key_none (hm : Move s l s') {t : Tid} (hnew : ∀ a, l = .createTask a → a.tid ≠ t)
    (hnone : s.taskEncryptionKey t = none) : s'.taskEncryptionKey t = none := by
  by_cases hl : l = .unwrap t
  · subst hl
    cases hm
    rw [Store.dropTaskKey_taskEncryptionKey, Function.update_self]
  · exact (hm.key_frame hnew hl).trans hnone

section Runs

variable [Sha256] {tr tr₁ tr₂ : List Entry} {e : Entry}

theorem Run.ownBlobs (h : Run tr s) : OwnBlobs s :=
  h.invariant (P := fun _ ↦ True) (fun _ _ _ _ _ ht ↦ by cases ht) (fun _ _ _ _ hm h ↦ h.move hm)
    fun _ _ _ _ ↦ trivial

/-- No later step creates a task again. -/
theorem Run.created_once {a : CreateTask} (ha : e.action = .createTask a) {tr' : List Entry}
    {a' : Action} {r : Response} {s₁ : Store} {l : Label} (hf : Fresh (tr₁ ++ e :: tr') a')
    (hl : a'.may s₁ r l) {a'' : CreateTask} (hc : l = .createTask a'') : a''.tid ≠ a.tid := by
  subst hc
  rw [hl.createTask] at hf
  have hnew := (fresh_iff.mp hf).2 a''.tid List.mem_cons_self
  rintro he
  rw [he] at hnew
  refine hnew (List.mem_flatMap.mpr ⟨e, List.mem_append_right _ List.mem_cons_self, ?_⟩)
  rw [ha]
  exact List.mem_cons_self

/-- The state a `create_task` leaves. -/
theorem Run.after_create (h : Run (tr₁ ++ e :: tr₂) s) {a : CreateTask}
    (ha : e.action = .createTask a) : e.after = e.before.create a := by
  have hruns := h.split.2.2.1
  rw [ha] at hruns
  have hafter : wp (handle (.createTask a)) (fun _ s' ↦ s' = e.before.create a) e.before := by
    simp only [handle, wp_bind, wp_createTask, wp_pure]
  exact hafter.elim hruns

theorem Run.kept (h : Run (tr₁ ++ e :: tr₂) s) {a : CreateTask} (ha : e.action = .createTask a) :
    Kept a s := by
  refine h.later (I := Kept a) ?_ fun tr' e' _ hr hf hs hkept ↦ ?_
  · rw [h.after_create ha]
    intro task ht
    rw [Store.create_task, Function.update_self, Option.some.injEq] at ht
    subst ht
    exact ⟨rfl, fun _ ↦ Function.update_self _ _ _⟩
  · have hinv := (Runs.via (hr.newTo hf) hs).invariant
      (I := fun s ↦ Coherent s ∧ OwnBlobs s ∧ Kept a s) (fun s₁ l s₂ hl hm h₁ ↦ ?_)
      ⟨hr.coherent, hr.ownBlobs, hkept⟩
    · exact hinv.2.2
    · exact ⟨h₁.1.move hm, h₁.2.1.move hm,
        h₁.2.2.move h₁.1 h₁.2.1 hm fun a' ↦ Run.created_once ha hf hl⟩

/-- Until its first download a task has the key row of its creation. -/
theorem Run.key_unread (h : Run (tr₁ ++ e :: tr₂) s) {a : CreateTask}
    (ha : e.action = .createTask a) (hno : ∀ e' ∈ tr₂, ∀ n, ¬ e'.downloads n a.tid) :
    s.taskEncryptionKey a.tid = a.keyRow e.before.nodePublicKey := by
  refine h.later (I := fun s ↦ s.taskEncryptionKey a.tid = a.keyRow e.before.nodePublicKey) ?_
    fun tr' e' hmem hr hf hs hkey ↦ ?_
  · -- the task is new, so there is no row but the one `create_task` writes
    have hnew : e.before.UnusedTask a.tid := by
      have hnewTo := h.split.1.newTo h.split.2.1
      rwa [ha] at hnewTo
    rw [h.after_create ha, Store.create_taskEncryptionKey, Store.putRow_taskEncryptionKey]
    cases a.keyRow e.before.nodePublicKey with
    | none => exact hnew.key
    | some row => exact Function.update_self _ _ _
  · refine (Runs.via (hr.newTo hf) hs).invariant
      (I := fun s ↦ s.taskEncryptionKey a.tid = a.keyRow e.before.nodePublicKey)
      (fun s₁ l s₂ hl hm h₁ ↦ ?_) hkey
    refine (hm.key_frame (fun a' ↦ Run.created_once ha hf hl) fun hunwrap ↦ ?_).trans h₁
    subst hunwrap
    obtain ⟨auth, token, n, hdownload, hauth, hok⟩ := hl.unwrap
    exact hno e' hmem n ⟨⟨auth, token, hdownload, hauth.nodeId⟩, hok⟩

/-- A download that is answered finds the task with its file, and leaves no key row. -/
theorem Run.downloaded (h : Run (tr₁ ++ e :: tr₂) s) {n : NodeId} {t : Tid}
    (hd : e.downloads n t) : ∃ auth token task data,
      MayDownload e.before auth t token n task data ∧
      e.response = .blob data (taskMimetype task) task.filename (e.before.dekHeaders t) ∧
      e.after = e.before.download t := by
  obtain ⟨⟨auth, token, ha, hn⟩, hok⟩ := hd
  have hruns := h.split.2.2.1
  rw [ha] at hruns
  have hdownloaded := (wp_downloadTaskBlob e.before auth t token).elim hruns
  generalize hresponse : e.response = r at hdownloaded hok
  generalize hafter : e.after = s' at hdownloaded
  cases hdownloaded with
  | refused hr =>
    rw [hok] at hr
    cases hr
  | granted hmay =>
    obtain rfl := Option.some.inj (hmay.auth.nodeId.symm.trans hn)
    exact ⟨auth, token, _, _, hmay, rfl, rfl⟩

/-- After a download a task has no key row. -/
theorem Run.key_read (h : Run (tr₁ ++ e :: tr₂) s) {a : CreateTask}
    (ha : e.action = .createTask a) {e' : Entry} (he' : e' ∈ tr₂) {n : NodeId}
    (hd : e'.downloads n a.tid) :
    s.taskEncryptionKey a.tid = none := by
  obtain ⟨tr₃, tr₄, rfl⟩ := List.append_of_mem he'
  have hassoc : tr₁ ++ e :: (tr₃ ++ e' :: tr₄) = (tr₁ ++ e :: tr₃) ++ e' :: tr₄ := by simp
  rw [hassoc] at h
  refine h.later (I := fun s ↦ s.taskEncryptionKey a.tid = none) ?_ fun tr' e'' _ hr hf hs hnone ↦ ?_
  · obtain ⟨_, _, _, _, -, -, hafter⟩ := h.downloaded hd
    rw [hafter, Store.download, Store.dropTaskKey_taskEncryptionKey, Function.update_self]
  · refine (Runs.via (hr.newTo hf) hs).invariant
      (I := fun s ↦ s.taskEncryptionKey a.tid = none) (fun s₁ l s₂ hl hm h₁ ↦ ?_) hnone
    refine hm.key_none (fun a' ↦ ?_) h₁
    rw [List.append_assoc, List.cons_append] at hf
    exact Run.created_once ha hf hl

/-- A task that exists has been created. -/
theorem Run.created_of_task (h : Run tr s) {t : Tid} {task : Task} (ht : s.task t = some task) :
    ∃ tr₁ e tr₂ a, tr = tr₁ ++ e :: tr₂ ∧ e.action = .createTask a ∧ a.tid = t := by
  induction h generalizing task with
  | start => cases ht
  | @step tr s a r s' hr hf hs ih =>
    by_cases hc : ∃ a', a = .createTask a' ∧ a'.tid = t
    · obtain ⟨a', rfl, ha'⟩ := hc
      exact ⟨tr, ⟨s, _, r, s'⟩, [], a', rfl, rfl, ha'⟩
    · -- without a creation the task was there before
      have hbefore : ∃ task₀, s.task t = some task₀ := by
        have hinv : ∀ task₁, s'.task t = some task₁ → ∃ task₀, s.task t = some task₀ := by
          refine (Runs.via (hr.newTo hf) hs).invariant (I := fun s₁ ↦ ∀ task₁,
            s₁.task t = some task₁ → ∃ task₀, s.task t = some task₀)
            (fun s₁ l s₂ hl hm h₁ task₂ ht₂ ↦ ?_) fun task₁ ht₁ ↦ ⟨task₁, ht₁⟩
          rcases hm.task_cases ht₂ with ⟨ht₁, -⟩ | ⟨a', rfl, ha', -⟩ | ⟨task₁, ht₁, -⟩
          · exact h₁ task₂ ht₁
          · exact absurd ⟨a', hl.createTask, ha'⟩ hc
          · exact h₁ task₁ ht₁
        exact hinv task ht
      obtain ⟨task₀, ht₀⟩ := hbefore
      obtain ⟨tr₁, e, tr₂, a', rfl, ha, ha'⟩ := ih ht₀
      exact ⟨tr₁, e, tr₂ ++ [⟨s, a, r, s'⟩], a', by simp, ha, ha'⟩

/-- No task is downloaded before it is created. -/
theorem Run.not_downloaded_before (h : Run (tr₁ ++ e :: tr₂) s) {a : CreateTask}
    (ha : e.action = .createTask a) {e' : Entry} (he' : e' ∈ tr₁) (n : NodeId) :
    ¬ e'.downloads n a.tid := by
  intro hd
  obtain ⟨tr₃, tr₄, rfl⟩ := List.append_of_mem he'
  obtain ⟨hbefore, hfresh, -, -⟩ := h.split
  obtain ⟨auth, token, task, data, hmay, -, -⟩ := hbefore.downloaded hd
  have hdrawn : a.tid ∈ drawn tr₃ := hbefore.split.1.known.task a.tid task hmay.stored
  rw [ha] at hfresh
  refine (fresh_iff.mp hfresh).2 a.tid List.mem_cons_self ?_
  rw [drawn_append]
  exact List.mem_append_left _ hdrawn

omit [Sha256] in
/-- With the headers of its key row, a payload is readable for the planned node. -/
theorem wasmBytes_keyRow {a : CreateTask} {publicKey : NodeId → Option PublicKey} {pair : Nat} :
    wasmBytes pair (.aesGcm a.dek a.iv a.payload)
      ((a.keyRow publicKey).map fun row ↦ ⟨row.encryptedDek, row.iv⟩) = some a.payload ↔
      ∃ n, a.assignedNode = some n ∧ publicKey n = some (.rsa pair) := by
  -- without a row the worker takes the ciphertext for the payload
  have hraw : wasmBytes pair (.aesGcm a.dek a.iv a.payload) none ≠ some a.payload :=
    fun h ↦ aesGcm_ne a.dek a.iv a.payload (Option.some.inj h)
  cases hn : a.assignedNode with
  | none =>
    have hrow : a.keyRow publicKey = none := by simp only [CreateTask.keyRow, hn, Option.bind_eq_bind,
      Option.bind_none]
    simp only [hrow, Option.map_none, hraw, reduceCtorEq, false_and, exists_false]
  | some n =>
    cases hk : publicKey n with
    | none =>
      have hrow : a.keyRow publicKey = none := by simp only [CreateTask.keyRow, hn, hk,
        Option.bind_eq_bind, Option.bind_some, Option.bind_none]
      simp [hrow, hraw, hk]
    | some key =>
      cases key with
      | other verifyError =>
        have hrow : a.keyRow publicKey = none := by simp only [CreateTask.keyRow, hn, hk,
          PublicKey.encrypt, Option.bind_eq_bind, Option.bind_some, Option.bind_none]
        simp [hrow, hraw, hk]
      | rsa p =>
        have hrow : a.keyRow publicKey = some ⟨a.jobId, ⟨p, a.dek⟩, a.iv, n⟩ := by
          simp only [CreateTask.keyRow, hn, hk, PublicKey.encrypt, Option.bind_eq_bind,
            Option.bind_some, Option.pure_def]
        rw [hrow, Option.map_some, wasmBytes, decryptDek]
        by_cases hp : p = pair
        · simp [hp, hk, decryptBlob]
        · simp [hp, hk]

/-- A worker recovers the payload of a task from a download if and only if the task was created
for a node with the worker's key and has not been downloaded before. -/
theorem payload_readable_iff (h : Run (tr₁ ++ e :: tr₂) s) {n : NodeId} {t : Tid} {pair : Nat}
    (hd : e.downloads n t) (hkey : e.before.nodePublicKey n = some (.rsa pair)) :
    (∃ ec ∈ tr₁, ∃ a, ec.action = .createTask a ∧ a.tid = t) ∧
    ∀ ec ∈ tr₁, ∀ a, ec.action = .createTask a → a.tid = t →
      (e.response.plaintext pair = some a.payload ↔
        (∃ n₀, a.assignedNode = some n₀ ∧
          ec.before.nodePublicKey n₀ = e.before.nodePublicKey n) ∧
        ∀ e' ∈ tr₁, ∀ m, ¬ e'.downloads m t) := by
  obtain ⟨auth, token, task, data, hmay, hresponse, -⟩ := h.downloaded hd
  have hbefore := h.split.1
  constructor
  · obtain ⟨tr₃, ec, tr₄, a, rfl, ha, ht⟩ := hbefore.created_of_task hmay.stored
    exact ⟨ec, List.mem_append_right _ List.mem_cons_self, a, ha, ht⟩
  · rintro ec hec a ha rfl
    obtain ⟨tr₃, tr₄, rfl⟩ := List.append_of_mem hec
    -- what is downloaded is the ciphertext
    have hdata : data = .aesGcm a.dek a.iv a.payload := by
      obtain ⟨hpath, hfile⟩ := hbefore.kept ha task hmay.stored
      have hlive : task.status.live = true := by
        obtain ⟨d, hd', -⟩ := hmay.token
        refine (hbefore.coherent _ task hmay.stored).live_of_downloadToken ?_
        rw [hd']
        exact Option.some_ne_none d
      have hopen : task.status.finished = false := by
        simpa using TaskStatus.not_finished_of_live hlive
      have hsame := hmay.file
      rw [hpath, hfile hopen, Option.some.injEq] at hsame
      exact hsame.symm
    rw [hresponse, Response.plaintext, hdata, hkey]
    by_cases hread : ∃ e' ∈ tr₄, ∃ m, e'.downloads m a.tid
    · -- the row is gone, and the worker takes the ciphertext for the payload
      obtain ⟨e', he', m, hd'⟩ := hread
      have hnone : e.before.dekHeaders a.tid = none := by
        rw [Store.dekHeaders, hbefore.key_read ha he' hd', Option.map_none]
      rw [hnone]
      constructor
      · intro hw
        exact absurd (Option.some.inj hw) (aesGcm_ne a.dek a.iv a.payload)
      · rintro ⟨-, hno⟩
        exact absurd hd' (hno e' (List.mem_append_right _ (List.mem_cons_of_mem _ he')) m)
    · have hunread : ∀ e' ∈ tr₄, ∀ m, ¬ e'.downloads m a.tid := by
        intro e' he' m hd'
        exact hread ⟨e', he', m, hd'⟩
      have hfirst : ∀ e' ∈ tr₃ ++ ec :: tr₄, ∀ m, ¬ e'.downloads m a.tid := by
        intro e' he' m hd'
        rcases List.mem_append.mp he' with he' | he'
        · exact hbefore.not_downloaded_before ha he' m hd'
        · rcases List.mem_cons.mp he' with rfl | he'
          · obtain ⟨⟨auth', token', ha', -⟩, -⟩ := hd'
            rw [ha] at ha'
            cases ha'
          · exact hunread e' he' m hd'
      rw [Store.dekHeaders, hbefore.key_unread ha hunread, wasmBytes_keyRow]
      exact ⟨fun hplanned ↦ ⟨hplanned, hfirst⟩, And.left⟩

end Runs

open Sample in
theorem payload_readable_iff_first :
    ∃ tr e s, Run (tr ++ [e]) s ∧ e.downloads nodeA task1 ∧
      e.before.nodePublicKey nodeA = some (.rsa 1) ∧ e.response.plaintext 1 = some payload ∧
      ∀ ec ∈ tr, ∀ a, ec.action = .createTask a → a.tid = task1 →
        (e.response.plaintext 1 = some a.payload ↔
          (∃ n₀, a.assignedNode = some n₀ ∧
            ec.before.nodePublicKey n₀ = e.before.nodePublicKey nodeA) ∧
          ∀ e' ∈ tr, ∀ m, ¬ e'.downloads m task1) := by
  let tr := performed 200 server [.tick second, join nodeA keyA (some 1),
    create task1 (some nodeA), .claim authA claim1 download1]
  let s := lastStore server tr
  have hrun : Run tr s := run_performed (by decide +kernel) (by decide +kernel)
  have hanswer : (exec 50 (handle (.download authA task1 (some download1))) s).map (·.1) =
      some (.blob (.aesGcm 1 2 payload) "application/wasm" "main.wasm" (some ⟨⟨1, 1⟩, 2⟩)) := by
    decide +kernel
  obtain ⟨⟨r, s'⟩, hexec, hr⟩ := Option.map_eq_some_iff.mp hanswer
  have hstep := hrun.step (.of_draws_nil rfl) (runs_of_exec hexec)
  have hkey : s.nodePublicKey nodeA = some (.rsa 1) := by decide +kernel
  have hd : Entry.downloads ⟨s, .download authA task1 (some download1), r, s'⟩ nodeA task1 := by
    refine ⟨⟨authA, some download1, rfl, rfl⟩, ?_⟩
    rw [show r = _ from hr]
    rfl
  refine ⟨tr, _, s', hstep, hd, hkey, ?_, (payload_readable_iff hstep hd hkey).2⟩
  rw [show r = _ from hr]
  show wasmBytes 1 (.aesGcm 1 2 payload) (some ⟨⟨1, 1⟩, 2⟩) = some payload
  decide

open Sample in
/-- A second download of `task1` by the node it was planned for is taken for the payload as it
is, and the download of `nodeB`, to which it goes when `nodeA` is dead, does not decrypt. -/
theorem payload_unreadable :
    let start := [.tick second, join nodeA keyA (some 1), join nodeB keyB (some 2),
      create task1 (some nodeA), .claim authA claim1 download1]
    let again := performed 200 server (start ++ [.download authA task1 (some download1),
      .download authA task1 (some download1)])
    let failover := performed 200 server (start ++ [.tick (10 * second), .health authB,
      .claim authB claim2 download2, .download authB task1 (some download2)])
    Run again (lastStore server again) ∧
      (again.getLast?.map fun e ↦ (e.response.refusal, e.response.plaintext 1)) =
        some (false, some (.aesGcm 1 2 payload)) ∧
      Run failover (lastStore server failover) ∧
      (failover.getLast?.map fun e ↦ (e.response.refusal, e.response.plaintext 2)) =
        some (false, none) :=
  ⟨run_performed (by decide +kernel) (by decide +kernel), by decide +kernel,
    run_performed (by decide +kernel) (by decide +kernel), by decide +kernel⟩

end TandemAio
