import TandemAio.Reasoning.Interleave
import TandemAio.Purge

/-!
# What a call knows of a task

The commands of different calls interleave.  A call that writes a task hash, puts a task in a queue
or writes or removes a payload does it on the strength of what it read before; taking a task from a
queue is a first look.  Each command here comes with what it keeps when the call's look is up to
date.
-/

open Reasoning Reasoning.Prog

namespace TandemAio

/-- The status of a task and where its payload is to be, how often it is in each queue, and which
payload files there are. -/
structure TaskView where
  hash : Option (TaskStatus × Path)
  queued : QueueKey → Nat
  payload : JobId → String → Bool

@[simps] def Store.taskView (s : Store) (tid : Tid) : TaskView where
  hash := (s.task tid).map fun a ↦ (a.status, a.blobPath)
  queued key := (s.queue key).count tid
  payload jobId filename := (s.file (.task jobId tid filename)).isSome

/-- A change of a task is made on the strength of what was seen of it, unless it only leaves
queues. -/
def sight : Sight Store Tid TaskView where
  view tid s := s.taskView tid
  acts v v' := v'.hash ≠ v.hash ∨ v'.payload ≠ v.payload ∨ ∃ key, v.queued key < v'.queued key

namespace TaskView

/-- The task has not ended, and is in no queue. -/
structure Open (v : TaskView) : Prop where
  status : ∀ status path, v.hash = some (status, path) → status.finished = false
  queued : ∀ key, v.queued key = 0

/-- The task waits for being put in a queue. -/
structure Waiting (v : TaskView) : Prop where
  status : ∀ status path, v.hash = some (status, path) → status = .queued
  queued : ∀ key, v.queued key = 0

/-- The task has ended, or there is none. -/
def Closed (v : TaskView) : Prop := ∀ status path, v.hash = some (status, path) → status.finished

theorem Waiting.isOpen {v : TaskView} (h : v.Waiting) : v.Open where
  status := by
    intro status path hhash
    rw [h.status status path hhash]
    rfl
  queued := h.queued

end TaskView

namespace Store

/-- What holds of a task whatever calls overlap. -/
structure SteadyTask (s : Store) (tid : Tid) (a : Task) : Prop where
  blob : a.blobPath = .task a.jobId tid a.filename
  queued : ∀ key, tid ∈ s.queue key → a.status = .queued
  payload : a.status.finished = false → s.file a.blobPath ≠ none
  result : a.status = .completed → a.resultPath = some (.result a.jobId tid)
  tokens : a.claimToken ≠ none ∨ a.downloadToken ≠ none → a.status.live = true

/-- The tasks are steady, and no id is in the queues twice. -/
structure Steady (s : Store) : Prop where
  task : ∀ tid a, s.task tid = some a → s.SteadyTask tid a
  once : ∀ tid key, (s.queue key).count tid ≤ 1
  apart : ∀ tid key key', tid ∈ s.queue key → tid ∈ s.queue key' → key = key'

/-- Tasks stay, with their payload path; one that has ended stays as it is, with its result. -/
def Follows (s s' : Store) : Prop :=
  ∀ tid a, s.task tid = some a → ∃ a', s'.task tid = some a' ∧ a'.blobPath = a.blobPath ∧
    (a.status.finished = true → a'.status = a.status ∧ a'.resultPath = a.resultPath)

theorem Follows.refl (s : Store) : s.Follows s := fun _ a h ↦ ⟨a, h, rfl, fun _ ↦ ⟨rfl, rfl⟩⟩

theorem Follows.trans {s s₁ s₂ : Store} (h₁ : s.Follows s₁) (h₂ : s₁.Follows s₂) :
    s.Follows s₂ := by
  intro tid a ha
  obtain ⟨a₁, ha₁, hblob₁, hend₁⟩ := h₁ tid a ha
  obtain ⟨a₂, ha₂, hblob₂, hend₂⟩ := h₂ tid a₁ ha₁
  refine ⟨a₂, ha₂, hblob₂.trans hblob₁, fun hfinished ↦ ?_⟩
  obtain ⟨hstatus₁, hresult₁⟩ := hend₁ hfinished
  obtain ⟨hstatus₂, hresult₂⟩ := hend₂ (by rw [hstatus₁]; exact hfinished)
  exact ⟨hstatus₂.trans hstatus₁, hresult₂.trans hresult₁⟩

/-- A payload path says which job a task is of. -/
theorem SteadyTask.jobId_eq {s s' : Store} {tid : Tid} {a a' : Task} (h : s.SteadyTask tid a)
    (h' : s'.SteadyTask tid a') (hblob : a'.blobPath = a.blobPath) : a'.jobId = a.jobId := by
  rw [h.blob, h'.blob] at hblob
  exact (Path.task.inj hblob).1

end Store

/-- What the calls keep to as long as their looks are up to date. -/
def upkeep : Contract sight where
  inv := Store.Steady
  guar := Store.Follows
  guar_refl := Store.Follows.refl
  guar_trans := Store.Follows.trans

/-! ## Steps that tasks do not show -/

namespace Store

/-- Tasks, queues and payloads are as before. -/
structure SameToTasks (s s' : Store) : Prop where
  task : s'.task = s.task
  queue : s'.queue = s.queue
  file : ∀ jobId tid filename,
    s'.file (.task jobId tid filename) = s.file (.task jobId tid filename)

theorem SameToTasks.view {s s' : Store} (h : s.SameToTasks s') (tid : Tid) :
    s'.taskView tid = s.taskView tid := by
  unfold taskView
  rw [h.task, h.queue]
  congr 1
  funext jobId filename
  rw [h.file]

theorem SteadyTask.same {s s' : Store} {tid : Tid} {a : Task} (h : s.SteadyTask tid a)
    (hs : s.SameToTasks s') : s'.SteadyTask tid a where
  blob := h.blob
  queued := by
    rw [hs.queue]
    exact h.queued
  payload := by
    rw [h.blob, hs.file, ← h.blob]
    exact h.payload
  result := h.result
  tokens := h.tokens

theorem Steady.same {s s' : Store} (h : s.Steady) (hs : s.SameToTasks s') : s'.Steady where
  task := by
    intro tid a ha
    rw [hs.task] at ha
    exact (h.task tid a ha).same hs
  once := by
    rw [hs.queue]
    exact h.once
  apart := by
    rw [hs.queue]
    exact h.apart

theorem SameToTasks.follows {s s' : Store} (h : s.SameToTasks s') : s.Follows s' := by
  intro tid a ha
  exact ⟨a, h.task ▸ ha, rfl, fun _ ↦ ⟨rfl, rfl⟩⟩

theorem SameToTasks.refl (s : Store) : s.SameToTasks s := ⟨rfl, rfl, fun _ _ _ ↦ rfl⟩

end Store

/-! ## Writes of a task hash -/

/-- What every write of a task hash keeps. -/
structure Stamp (tid : Tid) (a a' : Task) : Prop where
  blobPath : a'.blobPath = a.blobPath
  jobId : a'.jobId = a.jobId
  filename : a'.filename = a.filename
  result : a'.status = .completed → a'.resultPath = some (.result a.jobId tid)
  failed : a'.status = .failed → a.status = .failed → a'.resultPath = a.resultPath
  tokens : a'.claimToken ≠ none ∨ a'.downloadToken ≠ none → a'.status.live = true

namespace Store

variable {s : Store} {tid : Tid}

theorem taskView_modifyTask_ne (s : Store) {x : Tid} (f : Task → Task) (h : x ≠ tid) :
    (s.modifyTask tid f).taskView x = s.taskView x := by
  unfold taskView
  rw [modifyTask_task, Function.update_of_ne h]
  rfl

theorem taskView_modifyTask_self (s : Store) (tid : Tid) (f : Task → Task) :
    (s.modifyTask tid f).taskView tid = { s.taskView tid with
      hash := (s.task tid).map fun a ↦ ((f a).status, (f a).blobPath) } := by
  unfold taskView
  rw [modifyTask_task, Function.update_self]
  dsimp only [modifyTask]
  rw [Option.map_map]
  rfl

theorem hash_of_task {a : Task} (h : s.task tid = some a) :
    (s.taskView tid).hash = some (a.status, a.blobPath) := by
  rw [taskView_hash, h]
  rfl

/-- A task whose status is written, when it changes it while the task is open. -/
theorem Steady.modifyTask (h : s.Steady) {f : Task → Task}
    (hstamp : ∀ a, s.task tid = some a → Stamp tid a (f a))
    (hopen : ∀ a, s.task tid = some a → (f a).status ≠ a.status → (s.taskView tid).Open) :
    (s.modifyTask tid f).Steady ∧ s.Follows (s.modifyTask tid f) := by
  have hsteady (a : Task) (ha : s.task tid = some a) : s.SteadyTask tid (f a) := by
    have hbefore := h.task tid a ha
    have hs := hstamp a ha
    refine ⟨?_, ?_, ?_, ?_, hs.tokens⟩
    · rw [hs.blobPath, hs.jobId, hs.filename]
      exact hbefore.blob
    · intro key hkey
      by_cases hsame : (f a).status = a.status
      · rw [hsame]
        exact hbefore.queued key hkey
      · have hnone : (s.queue key).count tid = 0 := (hopen a ha hsame).queued key
        exact absurd (List.count_pos_iff.mpr hkey) (by omega)
    · intro hfinished
      rw [hs.blobPath]
      apply hbefore.payload
      by_cases hsame : (f a).status = a.status
      · rw [← hsame]
        exact hfinished
      · exact (hopen a ha hsame).status _ _ (hash_of_task ha)
    · intro hcompleted
      rw [hs.jobId]
      exact hs.result hcompleted
  constructor
  · constructor
    · intro x b hb
      rw [modifyTask_task] at hb
      by_cases hx : x = tid
      · rw [hx, Function.update_self] at hb
        obtain ⟨a, ha, rfl⟩ := Option.map_eq_some_iff.mp hb
        rw [hx]
        have hs := hsteady a ha
        exact ⟨hs.blob, hs.queued, hs.payload, hs.result, hs.tokens⟩
      · rw [Function.update_of_ne hx] at hb
        have hs := h.task x b hb
        exact ⟨hs.blob, hs.queued, hs.payload, hs.result, hs.tokens⟩
    · exact h.once
    · exact h.apart
  · intro x a ha
    by_cases hx : x = tid
    · rw [hx] at ha ⊢
      have hs := hstamp a ha
      refine ⟨f a, ?_, hs.blobPath, fun hfinished ↦ ?_⟩
      · rw [modifyTask_task, Function.update_self, ha]
        rfl
      · have hsame : (f a).status = a.status := by
          by_contra hne
          have hopen' := (hopen a ha hne).status _ _ (hash_of_task ha)
          rw [hfinished] at hopen'
          cases hopen'
        refine ⟨hsame, ?_⟩
        cases hstatus : a.status with
        | completed =>
          rw [hs.result (hsame.trans hstatus), (h.task tid a ha).result hstatus]
        | failed => exact hs.failed (hsame.trans hstatus) hstatus
        | queued =>
          rw [hstatus] at hfinished
          cases hfinished
        | claimed =>
          rw [hstatus] at hfinished
          cases hfinished
        | running =>
          rw [hstatus] at hfinished
          cases hfinished
    · refine ⟨a, ?_, rfl, fun _ ↦ ⟨rfl, rfl⟩⟩
      rw [modifyTask_task, Function.update_of_ne hx]
      exact ha

/-! ## Queues -/

theorem count_push (s : Store) (key : QueueKey) (tid x : Tid) (key' : QueueKey) :
    ((s.push key tid).queue key').count x =
      (s.queue key').count x + if key' = key ∧ x = tid then 1 else 0 := by
  rw [push_queue]
  by_cases hkey : key' = key
  · rw [hkey, Function.update_self, List.count_append, List.count_singleton]
    congr 1
    by_cases hx : x = tid
    · rw [if_pos (beq_iff_eq.mpr hx.symm), if_pos ⟨rfl, hx⟩]
    · rw [if_neg fun h ↦ hx (beq_iff_eq.mp h).symm, if_neg fun h ↦ hx h.2]
  · rw [Function.update_of_ne hkey, if_neg fun h ↦ hkey h.1, Nat.add_zero]

/-- A task that waits for it is put in a queue. -/
theorem Steady.push (h : s.Steady) {key : QueueKey} (hwait : (s.taskView tid).Waiting) :
    (s.push key tid).Steady ∧ s.Follows (s.push key tid) := by
  have hnone (key' : QueueKey) : (s.queue key').count tid = 0 := hwait.queued key'
  have hmem {x : Tid} {key' : QueueKey} (hx : x ∈ (s.push key tid).queue key') :
      x = tid ∧ key' = key ∨ x ≠ tid ∧ x ∈ s.queue key' := by
    have hpos := List.count_pos_iff.mpr hx
    rw [count_push] at hpos
    by_cases htid : x = tid
    · rw [htid, hnone] at hpos
      split at hpos
      · rename_i heq
        exact Or.inl ⟨htid, heq.1⟩
      · cases hpos
    · rw [if_neg fun heq ↦ htid heq.2] at hpos
      exact Or.inr ⟨htid, List.count_pos_iff.mp hpos⟩
  constructor
  · constructor
    · intro x a ha
      have hs := h.task x a ha
      refine ⟨hs.blob, ?_, hs.payload, hs.result, hs.tokens⟩
      intro key' hx
      rcases hmem hx with ⟨htid, _⟩ | ⟨_, hold⟩
      · rw [htid] at ha
        exact hwait.status _ _ (hash_of_task ha)
      · exact hs.queued key' hold
    · intro x key'
      rw [count_push]
      split
      · rename_i heq
        rw [heq.2, hnone]
      · exact h.once x key'
    · intro x key₁ key₂ h₁ h₂
      rcases hmem h₁ with ⟨hx, hkey₁⟩ | ⟨hx, hold₁⟩
      · rcases hmem h₂ with ⟨_, hkey₂⟩ | ⟨hne, _⟩
        · rw [hkey₁, hkey₂]
        · exact absurd hx hne
      · rcases hmem h₂ with ⟨hx', _⟩ | ⟨_, hold₂⟩
        · exact absurd hx' hx
        · exact h.apart x key₁ key₂ hold₁ hold₂
  · exact fun x a ha ↦ ⟨a, ha, rfl, fun _ ↦ ⟨rfl, rfl⟩⟩

theorem queue_pop_sublist (s : Store) (key key' : QueueKey) :
    ((s.pop key).queue key').Sublist (s.queue key') := by
  rw [pop_queue]
  by_cases hkey : key' = key
  · rw [hkey, Function.update_self]
    exact List.tail_sublist _
  · rw [Function.update_of_ne hkey]

theorem Steady.pop (h : s.Steady) (key : QueueKey) :
    (s.pop key).Steady ∧ s.Follows (s.pop key) := by
  constructor
  · constructor
    · intro x a ha
      have hs := h.task x a ha
      exact ⟨hs.blob, fun key' hx ↦ hs.queued key' ((s.queue_pop_sublist key key').subset hx),
        hs.payload, hs.result, hs.tokens⟩
    · exact fun x key' ↦ ((s.queue_pop_sublist key key').count_le x).trans (h.once x key')
    · exact fun x key₁ key₂ h₁ h₂ ↦ h.apart x key₁ key₂
        ((s.queue_pop_sublist key key₁).subset h₁) ((s.queue_pop_sublist key key₂).subset h₂)
  · exact fun x a ha ↦ ⟨a, ha, rfl, fun _ ↦ ⟨rfl, rfl⟩⟩

/-- An id taken from a queue is in none any more. -/
theorem Steady.pop_waiting (h : s.Steady) {key : QueueKey} {rest : List Tid}
    (hqueue : s.queue key = tid :: rest) : ((s.pop key).taskView tid).Waiting := by
  have hmem : tid ∈ s.queue key := hqueue ▸ List.mem_cons_self
  constructor
  · intro status path hhash
    obtain ⟨a, ha, hpair⟩ := Option.map_eq_some_iff.mp hhash
    cases hpair
    exact (h.task tid a ha).queued key hmem
  · intro key'
    show ((s.pop key).queue key').count tid = 0
    rw [pop_queue]
    by_cases hkey : key' = key
    · have honce := h.once tid key
      rw [hqueue, List.count_cons_self] at honce
      rw [hkey, Function.update_self, hqueue]
      show rest.count tid = 0
      omega
    · rw [Function.update_of_ne hkey]
      by_contra hne
      exact hkey (h.apart tid key' key (List.count_pos_iff.mp (by omega)) hmem)

/-! ## Payloads -/

theorem Steady.putFile (h : s.Steady) (path : Path) (blob : Blob) :
    (s.putFile path blob).Steady ∧ s.Follows (s.putFile path blob) := by
  constructor
  · constructor
    · intro x a ha
      have hs := h.task x a ha
      refine ⟨hs.blob, hs.queued, fun hfinished ↦ ?_, hs.result, hs.tokens⟩
      rw [putFile_file]
      by_cases hpath : a.blobPath = path
      · rw [hpath, Function.update_self]
        exact Option.some_ne_none blob
      · rw [Function.update_of_ne hpath]
        exact hs.payload hfinished
    · exact h.once
    · exact h.apart
  · exact fun x a ha ↦ ⟨a, ha, rfl, fun _ ↦ ⟨rfl, rfl⟩⟩

/-- A payload that no task needs any more is removed. -/
theorem Steady.dropFile (h : s.Steady) {jobId : JobId} {filename : String}
    (hclosed : (s.taskView tid).Closed) :
    (s.dropFile (.task jobId tid filename)).Steady ∧
      s.Follows (s.dropFile (.task jobId tid filename)) := by
  constructor
  · constructor
    · intro x a ha
      have hs := h.task x a ha
      refine ⟨hs.blob, hs.queued, fun hfinished ↦ ?_, hs.result, hs.tokens⟩
      have hpath : a.blobPath ≠ .task jobId tid filename := by
        intro heq
        rw [hs.blob] at heq
        obtain ⟨_, rfl, _⟩ := Path.task.inj heq
        rw [hclosed _ _ (hash_of_task ha)] at hfinished
        cases hfinished
      rw [dropFile_file, Function.update_of_ne hpath]
      exact hs.payload hfinished
    · exact h.once
    · exact h.apart
  · exact fun x a ha ↦ ⟨a, ha, rfl, fun _ ↦ ⟨rfl, rfl⟩⟩

/-- A new task is stored once its payload is there. -/
theorem Steady.putTask (h : s.Steady) {a : Task}
    (hblob : a.blobPath = .task a.jobId tid a.filename) (hstatus : a.status = .queued)
    (hclaim : a.claimToken = none) (hdownload : a.downloadToken = none)
    (hpayload : s.file a.blobPath ≠ none)
    (hold : ∀ b, s.task tid = some b → b.status = .queued ∧ b.blobPath = a.blobPath) :
    (s.putTask tid a).Steady ∧ s.Follows (s.putTask tid a) := by
  have hsteady : s.SteadyTask tid a := by
    refine ⟨hblob, fun _ _ ↦ hstatus, fun _ ↦ hpayload, fun hcompleted ↦ ?_, fun htokens ↦ ?_⟩
    · rw [hstatus] at hcompleted
      cases hcompleted
    · exact htokens.elim (absurd hclaim) (absurd hdownload)
  constructor
  · constructor
    · intro x b hb
      rw [putTask_task] at hb
      by_cases hx : x = tid
      · rw [hx, Function.update_self] at hb
        cases hb
        rw [hx]
        exact ⟨hsteady.blob, hsteady.queued, hsteady.payload, hsteady.result, hsteady.tokens⟩
      · rw [Function.update_of_ne hx] at hb
        have hs := h.task x b hb
        exact ⟨hs.blob, hs.queued, hs.payload, hs.result, hs.tokens⟩
    · exact h.once
    · exact h.apart
  · intro x b hb
    by_cases hx : x = tid
    · rw [hx] at hb ⊢
      obtain ⟨hqueued, hsame⟩ := hold b hb
      refine ⟨a, ?_, hsame.symm, fun hfinished ↦ ?_⟩
      · rw [putTask_task, Function.update_self]
      · rw [hqueued] at hfinished
        cases hfinished
    · refine ⟨b, ?_, rfl, fun _ ↦ ⟨rfl, rfl⟩⟩
      rw [putTask_task, Function.update_of_ne hx]
      exact hb

end Store

/-- A command that leaves tasks alone is quiet. -/
theorem quiet_of_same {ρ : Type} {c : Command Store Tid ρ}
    (h : ∀ s : Store, s.SameToTasks (c.run s).2) : upkeep.Quiet c :=
  fun s hs ↦ ⟨hs.same (h s), (h s).follows, (h s).view⟩

/-! ## The commands of a call -/

section Commands

variable {α : Type} {Q : α → Belief Tid TaskView → Store → Prop} {b : Belief Tid TaskView}
  {s : Store} {tid : Tid}

theorem safe_read {ρ : Type} {f : Store → ρ} {seen : ρ → List Tid} {k : ρ → Server α}
    (h : ∀ b' s', (∀ x w, b' x w → b x w) → s.Follows s' → s'.Steady →
      upkeep.Safe (k (f s')) Q b' s') : upkeep.Safe (Server.read f seen >>= k) Q b s := by
  refine Contract.safe_quiet (quiet_of_same fun s' ↦ Store.SameToTasks.refl s') fun s' hf hs ↦ ?_
  exact h _ s' (fun x w hw ↦ Sight.after_le rfl hw) hf hs

/-- Reading a task is a look at it. -/
theorem safe_getTask {k : Option Task → Server α}
    (h : ∀ b' s', (∀ x w, b' x w → b x w) → (∀ w, b' tid w → w = s'.taskView tid) →
      s.Follows s' → s'.Steady → upkeep.Safe (k (s'.task tid)) Q b' s') :
    upkeep.Safe (Server.getTask tid >>= k) Q b s := by
  refine Contract.safe_quiet (quiet_of_same fun s' ↦ Store.SameToTasks.refl s') fun s' hf hs ↦ ?_
  refine h _ s' (fun x w hw ↦ Sight.after_le rfl hw) (fun w hw ↦ ?_) hf hs
  exact (Sight.after_seen (Or.inl List.mem_cons_self) (fun htakes ↦ htakes.1 rfl) hw).2

/-- A write that leaves tasks alone. -/
theorem safe_write {g : Store → Store} {seen : List Tid} {k : Unit → Server α}
    (hg : ∀ s : Store, s.SameToTasks (g s))
    (h : ∀ b' s', (∀ x w, b' x w → b x w) → s.Follows s' → upkeep.Safe (k ()) Q b' s') :
    upkeep.Safe (Server.write g seen >>= k) Q b s := by
  refine Contract.safe_quiet (quiet_of_same hg) fun s' hf _ ↦ ?_
  exact h _ _ (fun x w hw ↦ Sight.after_le ((hg s').view x) hw) (hf.trans (hg s').follows)

/-- Commands that leave tasks alone. -/
theorem safe_each {β : Type} {p : Server β} {k : β → Server α}
    (hp : p.Each fun c ↦ upkeep.Quiet c)
    (h : ∀ r b' s', (∀ x w, b' x w → b x w) → s.Follows s' → upkeep.Safe (k r) Q b' s') :
    upkeep.Safe (p >>= k) Q b s :=
  Contract.safe_monadBind.mpr (Contract.safe_of_each hp h)

/-- A task is only taken from a queue. -/
theorem not_takes {s s' : Store} (tid : Tid) (hqueue : s'.queue = s.queue) :
    ¬sight.Takes tid s s' := by
  intro ⟨hne, hacts⟩
  have hhash : (s'.taskView tid).hash = (s.taskView tid).hash := by
    by_contra hhash
    exact hacts (Or.inl hhash)
  have hpayload : (s'.taskView tid).payload = (s.taskView tid).payload := by
    by_contra hpayload
    exact hacts (Or.inr (Or.inl hpayload))
  have hqueued : (s'.taskView tid).queued = (s.taskView tid).queued := by
    funext key
    rw [Store.taskView_queued, Store.taskView_queued, hqueue]
  apply hne
  show s'.taskView tid = s.taskView tid
  cases hs : s'.taskView tid
  cases hs' : s.taskView tid
  rw [hs, hs'] at hhash hpayload hqueued
  dsimp only at hhash hpayload hqueued
  rw [hhash, hpayload, hqueued]

/-- A look at a task, and no first one. -/
theorem after_look {s s' : Store} {ks : List Tid} {w : TaskView}
    (h : sight.after b ks s s' tid w) (htid : tid ∈ ks) (hqueue : s'.queue = s.queue) :
    b tid (s.taskView tid) ∧ w = s'.taskView tid :=
  Sight.after_seen (Or.inl htid) (not_takes tid hqueue) h

/-- A task hash is written by a call that believes the task to be open. -/
theorem safe_hsetTask {f : Task → Task} {status : TaskStatus} {k : Unit → Server α}
    (hopen : ∀ w, b tid w → w.Open) (hstatus : ∀ a, (f a).status = status)
    (hstamp : ∀ s' a, s.Follows s' → s'.Steady → s'.task tid = some a → Stamp tid a (f a))
    (h : ∀ b' s', (∀ w, b' tid w → (∀ key, w.queued key = 0) ∧
        ∀ status' path, w.hash = some (status', path) → status' = status) →
      s.Follows s' → upkeep.Safe (k ()) Q b' s') :
    upkeep.Safe (Server.hsetTask tid f >>= k) Q b s := by
  intro s' hf hs hdate
  have hhash : ((s'.modifyTask tid f).taskView tid).hash =
      (s'.task tid).map fun a ↦ ((f a).status, (f a).blobPath) := by
    rw [Store.taskView_modifyTask_self]
  obtain ⟨hsteady, hfollows⟩ := hs.modifyTask (hstamp s' · hf hs) fun a ha hne ↦ by
    apply hopen _ (hdate tid (Or.inl fun hsame ↦ hne ?_))
    have hboth : ((s'.modifyTask tid f).taskView tid).hash = (s'.taskView tid).hash := hsame
    rw [hhash, Store.hash_of_task ha, ha, Option.map_some] at hboth
    exact congrArg Prod.fst (Option.some.inj hboth)
  refine ⟨hsteady, hfollows, h _ _ (fun w hw ↦ ?_) (hf.trans hfollows)⟩
  obtain ⟨hbefore, rfl⟩ := after_look hw List.mem_cons_self rfl
  constructor
  · intro key
    rw [Store.taskView_modifyTask_self]
    exact (hopen _ hbefore).queued key
  · intro status' path hw
    rw [hhash] at hw
    obtain ⟨a, _, hpair⟩ := Option.map_eq_some_iff.mp hw
    rw [← hstatus a]
    exact (congrArg Prod.fst hpair).symm

/-- A task is put in a queue by a call that believes it to wait for that. -/
theorem safe_rpush {Q : Unit → Belief Tid TaskView → Store → Prop} {key : QueueKey}
    (hwait : ∀ w, b tid w → w.Waiting) (h : ∀ b' s', s.Follows s' → Q () b' s') :
    upkeep.Safe (Server.rpush key tid) Q b s := by
  intro s' hf hs hdate
  have hmore : (s'.taskView tid).queued key < ((s'.push key tid).taskView tid).queued key := by
    show (s'.queue key).count tid < ((s'.push key tid).queue key).count tid
    rw [Store.count_push, if_pos ⟨rfl, rfl⟩]
    exact Nat.lt_succ_self _
  have hbelief : b tid (s'.taskView tid) := hdate tid (Or.inr (Or.inr ⟨key, hmore⟩))
  obtain ⟨hsteady, hfollows⟩ := hs.push (hwait _ hbelief)
  exact ⟨hsteady, hfollows, h _ _ (hf.trans hfollows)⟩

/-- An id that is taken from a queue waits for being put in one again. -/
theorem safe_lpop {key : QueueKey} {k : Option Tid → Server α}
    (h : ∀ o b' s', (∀ tid ∈ o, ∀ w, b' tid w → w.Waiting) → s.Follows s' →
      upkeep.Safe (k o) Q b' s') : upkeep.Safe (Server.lpop key >>= k) Q b s := by
  intro s' hf hs _
  obtain ⟨hsteady, hfollows⟩ := hs.pop key
  refine ⟨hsteady, hfollows, h _ _ _ (fun tid htid w hw ↦ ?_) (hf.trans hfollows)⟩
  obtain ⟨rest, hqueue⟩ : ∃ rest, s'.queue key = tid :: rest := List.head?_eq_some_iff.mp htid
  have htakes : sight.Takes tid s' (s'.pop key) := by
    constructor
    · intro hsame
      have hcount : ((s'.pop key).queue key).count tid = (s'.queue key).count tid :=
        congrFun (congrArg TaskView.queued hsame) key
      rw [Store.pop_queue, Function.update_self, hqueue, List.count_cons_self] at hcount
      change rest.count tid = rest.count tid + 1 at hcount
      omega
    · rintro (hhash | hpayload | ⟨key', hmore⟩)
      · exact hhash rfl
      · exact hpayload rfl
      · exact absurd hmore (Nat.not_lt.mpr ((s'.queue_pop_sublist key key').count_le tid))
  rw [Sight.after_takes htakes hw]
  exact hs.pop_waiting hqueue

/-- A payload is removed by a call that believes its task to have ended. -/
theorem safe_dropFile {path : Path} {k : Unit → Server α}
    (hclosed : ∀ jobId tid filename, path = .task jobId tid filename → ∀ w, b tid w → w.Closed)
    (h : ∀ b' s', s.Follows s' → upkeep.Safe (k ()) Q b' s') :
    upkeep.Safe (Server.write (·.dropFile path) [] >>= k) Q b s := by
  intro s' hf hs hdate
  have hstep : (s'.dropFile path).Steady ∧ s'.Follows (s'.dropFile path) := by
    by_cases hfile : s'.file path = none
    · have hsame : s'.SameToTasks (s'.dropFile path) := by
        refine ⟨rfl, rfl, fun jobId tid filename ↦ ?_⟩
        rw [Store.dropFile_file, ← hfile, Function.update_eq_self]
      exact ⟨hs.same hsame, hsame.follows⟩
    · cases path with
      | task jobId tid filename =>
        apply hs.dropFile
        apply hclosed jobId tid filename rfl _ (hdate tid (Or.inr (Or.inl fun hpayload ↦ hfile ?_)))
        have hthere := congrFun (congrFun hpayload jobId) filename
        change ((s'.dropFile (.task jobId tid filename)).file (.task jobId tid filename)).isSome =
          (s'.file (.task jobId tid filename)).isSome at hthere
        rw [Store.dropFile_file, Function.update_self] at hthere
        exact Option.isNone_iff_eq_none.mp (Option.isSome_eq_false_iff.mp hthere.symm)
      | result jobId tid =>
        have hsame : s'.SameToTasks (s'.dropFile (.result jobId tid)) := by
          refine ⟨rfl, rfl, fun jobId' tid' filename ↦ ?_⟩
          rw [Store.dropFile_file, Function.update_of_ne (by intro h; cases h)]
        exact ⟨hs.same hsame, hsame.follows⟩
  exact ⟨hstep.1, hstep.2, h _ _ (hf.trans hstep.2)⟩

/-- A call that has one view of a task in mind writes its payload. -/
theorem safe_putFile {jobId : JobId} {filename : String} {blob : Blob} {k : Unit → Server α}
    (hpoint : ∀ w w', b tid w → b tid w' → w = w')
    (h : ∀ b' (s' s'' : Store), (∀ w, b' tid w → b tid (s'.taskView tid) ∧ w = s''.taskView tid) →
      s'' = s'.putFile (.task jobId tid filename) blob → s.Follows s'' →
      upkeep.Safe (k ()) Q b' s'') :
    upkeep.Safe (Server.write (·.putFile (.task jobId tid filename) blob) [] >>= k) Q b s := by
  intro s' hf hs _
  obtain ⟨hsteady, hfollows⟩ := hs.putFile (.task jobId tid filename) blob
  refine ⟨hsteady, hfollows, h _ s' _ (fun w hw ↦ ?_) rfl (hf.trans hfollows)⟩
  rcases hw with ⟨htakes, _⟩ | ⟨_, hbefore, hchanged, hunchanged⟩
  · exact absurd htakes (not_takes tid rfl)
  · refine ⟨hbefore, ?_⟩
    by_cases hsame : (s'.putFile (.task jobId tid filename) blob).taskView tid = s'.taskView tid
    · rw [hsame]
      exact hpoint _ _ (hunchanged ⟨List.not_mem_nil, hsame⟩) hbefore
    · exact hchanged (Or.inr hsame)

/-- A new task is stored by a call that believes its payload to be there, and no task. -/
theorem safe_putTask {a : Task} {k : Unit → Server α}
    (hblob : a.blobPath = .task a.jobId tid a.filename) (hstatus : a.status = .queued)
    (hclaim : a.claimToken = none) (hdownload : a.downloadToken = none)
    (hnew : ∀ w, b tid w → w.hash = none ∧ (∀ key, w.queued key = 0) ∧
      w.payload a.jobId a.filename = true)
    (h : ∀ b' s', (∀ w, b' tid w → w.Waiting) → s.Follows s' → upkeep.Safe (k ()) Q b' s') :
    upkeep.Safe (Server.putTask tid a >>= k) Q b s := by
  intro s' hf hs hdate
  have hhash : ((s'.putTask tid a).taskView tid).hash = some (a.status, a.blobPath) := by
    apply Store.hash_of_task
    rw [Store.putTask_task, Function.update_self]
  have hstep : (s'.putTask tid a).Steady ∧ s'.Follows (s'.putTask tid a) := by
    by_cases hsame : ((s'.putTask tid a).taskView tid).hash = (s'.taskView tid).hash
    · obtain ⟨old, hold, hpair⟩ := Option.map_eq_some_iff.mp (hsame.symm.trans hhash)
      obtain ⟨hqueued, hpath⟩ := Prod.mk.inj hpair
      rw [hstatus] at hqueued
      apply hs.putTask hblob hstatus hclaim hdownload
      · rw [← hpath]
        apply (hs.task tid old hold).payload
        rw [hqueued]
        rfl
      · intro other hother
        rw [hold] at hother
        cases hother
        exact ⟨hqueued, hpath⟩
    · obtain ⟨hnone, _, hpayload⟩ := hnew _ (hdate tid (Or.inl hsame))
      apply hs.putTask hblob hstatus hclaim hdownload
      · rw [hblob]
        intro hfile
        change (s'.file (.task a.jobId tid a.filename)).isSome = true at hpayload
        rw [hfile] at hpayload
        cases hpayload
      · intro old hold
        have hsome := Store.hash_of_task hold
        change (s'.taskView tid).hash = none at hnone
        rw [hnone] at hsome
        cases hsome
  refine ⟨hstep.1, hstep.2, h _ _ (fun w hw ↦ ?_) (hf.trans hstep.2)⟩
  obtain ⟨hbefore, rfl⟩ := after_look hw List.mem_cons_self rfl
  constructor
  · intro status path hw
    rw [hhash] at hw
    cases hw
    exact hstatus
  · exact (hnew _ hbefore).2.1

end Commands

end TandemAio
