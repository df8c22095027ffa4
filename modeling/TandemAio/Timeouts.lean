import TandemAio.Builders
import TandemAio.Framing
import TandemAio.Refusals
import TandemAio.Runtimes

/-!
# Timeouts

What becomes of a `timeout_ms` of the manifest: a text in the task hash, a number in the answer to
the claim, a `u64` in the worker, and a fuel budget.
-/

open Reasoning Reasoning.Prog

namespace TandemAio

/-- The decimal digits of Unicode, with those of ASCII among them. -/
class DecimalBacking extends Backing where
  decimal_ascii : ∀ c : Char, c.isDigit = true →
    decimal (charPoint c) = some (c.toNat - '0'.toNat)

/-- The field `timeout_ms` of the hash that `create_task` writes. -/
def timeoutField : Option Nat → String
  | none => ""
  | some timeoutMs => toString timeoutMs

/-- `_maybe_int` -/
def maybeInt [Backing] : Option String → Option Int
  | none | some "" => none
  | some value => pyInt value

/-- The field `timeout_ms` of the worker's `ClaimResponse`. A missing field is `None`; a number that
is no `u64` fails the whole answer. -/
def decodeTimeoutMs : Option Int → Option (Option UInt64)
  | none => some none
  | some value =>
    if 0 ≤ value ∧ value < 2 ^ 64 then some (some (UInt64.ofNat value.toNat)) else none

/-- The number of fuel units for a millisecond. -/
def fuelPerMs : Nat := 10000

/-- A timeout reaches the worker as it is, and its fuel budget does not wrap. -/
def TimeoutSurvives [Backing] (m : Nat) : Prop :=
  maybeInt (some (timeoutField (some m))) = some (m : Int) ∧
    ∃ ms : UInt64, decodeTimeoutMs (maybeInt (some (timeoutField (some m)))) = some (some ms) ∧
      ms.toNat = m ∧ (fuelBudget (some ms)).toNat = m * fuelPerMs

section Texts

variable [DecimalBacking] {m : Nat}

theorem maybeInt_timeoutField (hlength : (Nat.toDigits 10 m).length ≤ 4300) :
    maybeInt (some (timeoutField (some m))) = some (m : Int) := by
  have hne : toString m ≠ "" := by
    intro hempty
    have hlist : (toString m).toList = [] := by rw [hempty]; rfl
    exact Nat.toDigits_ne_nil (Nat.toList_repr.symm.trans hlist)
  unfold maybeInt timeoutField
  split
  · rename_i h
    cases h
  · rename_i h
    exact absurd (Option.some.inj h) hne
  · rename_i value h
    rw [← Option.some.inj h]
    exact intOfStr_toString DecimalBacking.decimal_ascii hlength

/-- A timeout survives exactly if its fuel budget is a `u64`. -/
theorem timeoutSurvives_iff : TimeoutSurvives m ↔ m * fuelPerMs < 2 ^ 64 := by
  constructor
  · rintro ⟨-, ms, -, -, hfuel⟩
    rw [← hfuel]
    exact UInt64.toNat_lt _
  · intro hlt
    have hm : m < 2 ^ 64 := by
      unfold fuelPerMs at hlt
      omega
    have hlength : (Nat.toDigits 10 m).length ≤ 4300 := by
      have hshort : (Nat.toDigits 10 m).length ≤ 20 :=
        (Nat.length_toDigits_le_iff (by decide) (by decide)).mpr (lt_trans hm (by decide))
      omega
    have hfield := maybeInt_timeoutField hlength
    have hms : (UInt64.ofNat m).toNat = m := by
      rw [UInt64.toNat_ofNat']
      exact Nat.mod_eq_of_lt hm
    refine ⟨hfield, UInt64.ofNat m, ?_, hms, ?_⟩
    · rw [hfield]
      unfold decodeTimeoutMs
      dsimp only
      rw [if_pos ⟨by omega, by omega⟩, Int.toNat_natCast]
    · unfold fuelBudget
      dsimp only
      rw [UInt64.toNat_mul, hms]
      exact Nat.mod_eq_of_lt hlt

end Texts

/-! ## From the manifest to the claim -/

/-- The timeout of a task, as the files of its job have it. -/
def StartFiles.Times (taskName : String) (timeoutMs : Option Nat) : StartFiles → Prop
  | .cloudpickle _ => timeoutMs = none
  | .wasm manifest _ => ∃ entries entry, manifest = .tasks entries ∧ some entry ∈ entries ∧
      taskName ≠ "" ∧ strStrip entry.name = taskName ∧
      coerceNonNegativeInt entry.timeoutMs = .ok timeoutMs

section Planning

variable [AsciiFold] {queued : NodeId → Nat} {available : AvailableNodes}
  {planned : List PlannedTask} {p : PlannedTask}

theorem planWasmTasks_times {manifest : List ManifestEntry} {files : List Upload}
    (h : planWasmTasks queued available manifest files = .ok planned) (hp : p ∈ planned) :
    ∃ entry ∈ manifest, p.taskName ≠ "" ∧ strStrip entry.name = p.taskName ∧
      coerceNonNegativeInt entry.timeoutMs = .ok p.timeoutMs := by
  obtain ⟨uploads, used, -, hentries, -, -⟩ := planWasmTasks_ok.mp h
  have hunit : p.unit ∈ manifest.flatMap fun entry ↦ entry.units available := by
    rw [← planEntries_units hentries]
    exact List.mem_map_of_mem hp
  obtain ⟨entry, hentry, hunit⟩ := List.mem_flatMap.mp hunit
  have hnamed := ((planEntries_spec hentries).2.1 entry hentry).named
  unfold ManifestEntry.units at hunit
  split at hunit
  · rename_i shardTotal timeoutMs _ htimeout
    obtain ⟨hname, hms⟩ := mem_shardUnits_name hunit
    have hname : p.taskName = strStrip entry.name := hname
    have hms : p.timeoutMs = timeoutMs := hms
    refine ⟨entry, hentry, ?_, hname.symm, ?_⟩
    · rw [hname]
      exact hnamed
    · rw [hms]
      exact htimeout
  · cases hunit

theorem planPickles_times {pickleFiles : List Upload} {load : NodeLoad}
    (h : planPickles queued available pickleFiles load = .ok planned) (hp : p ∈ planned) :
    p.timeoutMs = none := by
  induction pickleFiles generalizing load planned with
  | nil =>
    cases h
    cases hp
  | cons pickleFile rest ih =>
    unfold planPickles at h
    dsimp only at h
    split at h
    · cases h
    · obtain ⟨planned', hrest, h⟩ := except_bind_ok.mp h
      cases h
      rcases List.mem_cons.mp hp with rfl | hp
      · rfl
      · exact ih hrest hp

theorem StartFiles.plan_times {files : StartFiles}
    (h : files.plan queued available = .ok planned) (hp : p ∈ planned) :
    files.Times p.taskName p.timeoutMs := by
  cases files with
  | cloudpickle pickleFiles =>
    unfold StartFiles.plan planCloudpickleTasks at h
    dsimp only at h
    split at h
    · cases h
    · exact planPickles_times h hp
  | wasm manifest wasmFiles =>
    cases manifest with
    | tasks entries =>
      unfold StartFiles.plan planManifest at h
      dsimp only at h
      split at h
      · obtain ⟨entry, hentry, htimes⟩ := planWasmTasks_times h hp
        obtain ⟨o, ho, hsome⟩ := List.mem_filterMap.mp hentry
        have hin : some entry ∈ entries := by
          obtain rfl : o = some entry := hsome
          exact List.takeWhile_subset _ ho
        exact ⟨entries, entry, rfl, hin, htimes⟩
      · obtain ⟨uploads, -, h⟩ := except_bind_ok.mp h
        obtain ⟨result, -, h⟩ := except_bind_ok.mp h
        cases h
    | empty | invalid | raises | noTasks => cases h

end Planning

/-- A task that is named keeps its name. -/
theorem PlannedTask.create_taskName {task : PlannedTask} {runtime : Runtime} {jobId : JobId}
    {checked : StartChecked} {draw : TaskDraw} {now : Time} (h : task.taskName ≠ "") :
    ((task.create runtime jobId checked draw).task now).taskName = task.taskName := if_neg h

section Runs

variable [Sha256] [AsciiFold] [Storage] [DecimalBacking] {tr₁ tr₂ : List QuotaEntry} {s : Store}
  {e : QuotaEntry}

omit [Sha256] [AsciiFold] [Storage] [DecimalBacking] in
theorem Edit.times {t : Tid} {task task' : Task} {l : Label} (h : Edit s t task l task') :
    (task'.jobId, task'.taskName, task'.timeoutMs) =
      (task.jobId, task.taskName, task.timeoutMs) := by
  cases h <;> rfl

/-- The timeout of the manifest is stored with the task and answered to its claim, and it reaches
the worker and its fuel budget exactly if the budget is a `u64`. -/
theorem timeout_survives_iff (h : QuotaRun (tr₁ ++ e :: tr₂) s) {auth : NodeAuth}
    {claimToken downloadToken : Token} {answer : ClaimResponse}
    (he : e.event = .act (.claim auth claimToken downloadToken) (.claimed answer)) :
    ∃ x ∈ tr₁, ∃ limits r draws reply files timeoutMs, x.event = .start limits r draws reply ∧
      draws.jobId = answer.jobId ∧ r.files = some files ∧
      files.Times answer.taskName timeoutMs ∧
      (e.after.task answer.tid).map (·.timeoutMs) = some timeoutMs ∧
      answer.timeoutMs = timeoutMs ∧
      ∀ m, timeoutMs = some m → (TimeoutSurvives m ↔ m * fuelPerMs < 2 ^ 64) := by
  obtain ⟨task, ht, hanswer, x, hx, r, draws, files, planned, a, now, hsame, limits, reply, checked,
    s₁, hevent, hplans, ha⟩ := h.claimed he Edit.times
  have hjob := (Prod.mk.inj hsame).1
  obtain ⟨hname, htimeout⟩ := Prod.mk.inj (Prod.mk.inj hsame).2
  obtain ⟨available, -, hplan⟩ := hplans.plan
  unfold StartDraws.creates at ha
  obtain ⟨i, hi, rfl⟩ := List.mem_mapIdx.mp ha
  have htimes := StartFiles.plan_times hplan (List.getElem_mem hi)
  have hfinal : files.Times task.taskName task.timeoutMs := by
    rw [← hname, ← htimeout]
    cases files with
    | cloudpickle pickleFiles => exact htimes
    | wasm manifest wasmFiles =>
      obtain ⟨entries, entry, hmanifest, hentry, hne, hrest⟩ := htimes
      refine ⟨entries, entry, hmanifest, hentry, ?_⟩
      rw [PlannedTask.create_taskName hne]
      exact ⟨hne, hrest⟩
  refine ⟨x, hx, limits, r, draws, reply, files, task.timeoutMs, hevent, ?_, hplans.given, ?_, ?_,
    ?_, fun m _ ↦ timeoutSurvives_iff⟩
  · rw [hanswer]
    exact hjob
  · rw [hanswer]
    exact hfinal
  · rw [ht]
    rfl
  · rw [hanswer]
    rfl

end Runs

/-! ## Two timeouts -/

namespace Sample

theorem decimal_ascii (c : Char) (h : c.isDigit = true) :
    Backing.decimal (charPoint c) = some (c.toNat - '0'.toNat) := by
  have hrange : 48 ≤ c.toNat ∧ c.toNat ≤ 57 := by
    unfold Char.isDigit at h
    simp only [Bool.and_eq_true, decide_eq_true_eq] at h
    exact h
  have hdigit : isDigit (charPoint c) = true := by
    simp only [isDigit, Bool.and_eq_true, decide_eq_true_eq, Fin.le_def, charPoint_val]
    exact hrange
  rw [← charPoint_val c]
  exact if_pos hdigit

scoped instance decimalBacking : DecimalBacking where
  toBacking := backing
  decimal_ascii := decimal_ascii

/-- A manifest with one entry. -/
def timedUpload (timeoutMs : Nat) : StartFiles :=
  .wasm (.tasks [some ⟨"foo", "foo", "tasks/foo.wasm", some (.int timeoutMs), none⟩])
    [⟨"foo.wasm", [1]⟩]

/-- The first timeout whose fuel budget is no `u64`. -/
def wrapping : Nat := 1844674407370956

def timedAnswer (timeoutMs : Nat) : ClaimResponse :=
  ⟨task1, job, "foo", "foo.wasm", .wasm, some claim1, some download1, some timeoutMs, none⟩

/-- The job of the manifest is started, and its task claimed. -/
def Answered (timeoutMs : Nat) : Prop :=
  (exec 300 (start (fun _ ↦ none) (uploadBy (timedUpload timeoutMs)) startDraws) nodeJoined).map
      Prod.fst = some startReply ∧
    (exec 300 (handle (.claim authA claim1 download1)) (jobStarted (timedUpload timeoutMs))).map
      Prod.fst = some (.claimed (timedAnswer timeoutMs))

instance (timeoutMs : Nat) : Decidable (Answered timeoutMs) := by
  unfold Answered
  infer_instance

end Sample

open Sample in
/-- Half a second. -/
theorem timeout_survives_iff_500 :
    ∃ timeoutMs, (timedUpload 500).Times "foo" timeoutMs ∧
      ((jobClaimed (timedUpload 500)).task task1).map (·.timeoutMs) = some timeoutMs ∧
      (timedAnswer 500).timeoutMs = timeoutMs ∧
      ∀ m, timeoutMs = some m → (TimeoutSurvives m ↔ m * fuelPerMs < 2 ^ 64) := by
  have hanswers : Answered 500 := by decide +kernel
  have hrun := uploadRun hanswers.1 hanswers.2
  unfold uploadEntries at hrun
  obtain ⟨x, hx, limits, r, draws, reply, files, timeoutMs, hevent, -, hgiven, htimes, hstored,
    hanswer, hsurvives⟩ := timeout_survives_iff hrun rfl
  have htid : (timedAnswer 500).tid = task1 := rfl
  dsimp only at hstored
  rw [htid] at hstored
  refine ⟨timeoutMs, ?_, hstored, hanswer, hsurvives⟩
  -- the only request of the run
  have hfiles : files = timedUpload 500 := by
    rcases List.mem_append.mp hx with hx | hx
    · unfold joinedEntries at hx
      simp only [List.mem_cons, List.not_mem_nil, or_false] at hx
      rcases hx with rfl | rfl <;> cases hevent
    · rw [List.mem_singleton.mp hx] at hevent
      cases hevent
      exact (Option.some.inj hgiven).symm
  rw [← hfiles]
  exact htimes

open Sample in
/-- The claim answers with what the worker cannot read, or with what its fuel budget wraps. -/
theorem timeout_wraps :
    (∃ s, QuotaRun (uploadEntries (timedUpload (2 ^ 64)) (timedAnswer (2 ^ 64))) s) ∧
    coerceNonNegativeInt (some (.int ((2 ^ 64 : Nat) : Int))) = .ok (some (2 ^ 64)) ∧
    decodeTimeoutMs (some ((2 ^ 64 : Nat) : Int)) = none ∧
    (∃ s, QuotaRun (uploadEntries (timedUpload wrapping) (timedAnswer wrapping)) s) ∧
    decodeTimeoutMs (some (wrapping : Int)) = some (some 1844674407370956) ∧
    (fuelBudget (some 1844674407370956)).toNat = 8384 ∧
    ¬ TimeoutSurvives (2 ^ 64) ∧ ¬ TimeoutSurvives wrapping := by
  have hanswers : Answered (2 ^ 64) ∧ Answered wrapping := by decide +kernel
  have hvalues : coerceNonNegativeInt (some (.int ((2 ^ 64 : Nat) : Int))) =
        .ok (some (2 ^ 64)) ∧
      decodeTimeoutMs (some ((2 ^ 64 : Nat) : Int)) = none ∧
      decodeTimeoutMs (some (wrapping : Int)) = some (some 1844674407370956) ∧
      (fuelBudget (some 1844674407370956)).toNat = 8384 ∧
      ¬ 2 ^ 64 * fuelPerMs < 2 ^ 64 ∧ ¬ wrapping * fuelPerMs < 2 ^ 64 := by
    decide +kernel
  obtain ⟨haccepted, hunread, hread, hwrapped, hlarge, hfirst⟩ := hvalues
  have hsurvives : ¬ TimeoutSurvives (2 ^ 64) ∧ ¬ TimeoutSurvives wrapping :=
    ⟨fun h ↦ hlarge (timeoutSurvives_iff.mp h), fun h ↦ hfirst (timeoutSurvives_iff.mp h)⟩
  exact ⟨⟨_, uploadRun hanswers.1.1 hanswers.1.2⟩, haccepted, hunread,
    ⟨_, uploadRun hanswers.2.1 hanswers.2.2⟩, hread, hwrapped, hsurvives⟩

end TandemAio
