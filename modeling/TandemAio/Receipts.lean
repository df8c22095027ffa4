import Mathlib
import TandemAio.Fencing
import TandemAio.Payload

/-!
# Receipts

The message of a receipt determines its fields, so an accepted receipt is one its node has signed
for what the receipt names.  What the receipt names is not compared with the task in the URL.
-/

open Reasoning Reasoning.Prog

namespace TandemAio

/-! ## Joined fields -/

section Joined

variable {α : Type} [DecidableEq α] {a : α} {xss yss : List (List α)}

theorem count_intercalate (a : α) (xss : List (List α)) :
    ([a].intercalate xss).count a = (xss.map (List.count a)).sum + (xss.length - 1) := by
  induction xss with
  | nil => rfl
  | cons xs xss ih =>
    cases xss with
    | nil => simp
    | cons ys yss =>
      have hcons : [a].intercalate (xs :: ys :: yss) = xs ++ a :: [a].intercalate (ys :: yss) := by
        simp [List.intercalate]
      rw [hcons, List.count_append, List.count_cons_self, ih]
      simp only [List.map_cons, List.sum_cons, List.length_cons]
      omega

/-- Fields without the separator are the only ones, in their number, with their join. -/
theorem intercalate_inj (hlen : xss.length = yss.length) (hyss : ∀ ys ∈ yss, a ∉ ys)
    (h : [a].intercalate xss = [a].intercalate yss) : xss = yss := by
  have hy : (yss.map (List.count a)).sum = 0 := by
    rw [List.sum_eq_zero_iff_forall_eq_nat]
    intro n hn
    obtain ⟨ys, hys, rfl⟩ := List.mem_map.mp hn
    exact List.count_eq_zero.mpr (hyss ys hys)
  -- both joins have as many separators, so there is none left for the fields
  have hx : (xss.map (List.count a)).sum = 0 := by
    have hcount := congrArg (List.count a) h
    rw [count_intercalate, count_intercalate] at hcount
    omega
  have hxss : ∀ xs ∈ xss, a ∉ xs := by
    intro xs hxs
    rw [List.sum_eq_zero_iff_forall_eq_nat] at hx
    exact List.count_eq_zero.mp (hx _ (List.mem_map_of_mem hxs))
  cases xss with
  | nil => exact (List.length_eq_zero_iff.mp hlen.symm).symm
  | cons xs xss =>
    have hne : yss ≠ [] := by
      rintro rfl
      cases hlen
    rw [← List.splitOn_intercalate a hxss (List.cons_ne_nil _ _), h,
      List.splitOn_intercalate a hyss hne]

end Joined

/-! ## The signed message -/

/-- A text that can stand between two `|`. -/
def Plain (s : String) : Prop := '|' ∉ s.toList

theorem Name.plain (name : Name) : Plain name.text := by
  intro h
  have hchar := List.all_eq_true.mp name.valid.2 '|' h
  revert hchar
  decide

theorem plain_hexdigest [Sha256] (data : List UInt8) : Plain (Sha256.hexdigest data) := by
  intro h
  have hchar := List.all_eq_true.mp (Sha256.hex data) '|' h
  revert hchar
  decide

theorem plain_toString (n : Nat) : Plain (toString n) := by
  intro h
  have hdigits : (toString n).toList = Nat.toDigits 10 n := by simp [toString, Nat.repr]
  rw [hdigits] at h
  have hchar := Nat.isDigit_of_mem_toDigits (by decide) (by decide) h
  revert hchar
  decide

theorem buildReceiptMessage_toList (tid count memoryHash outputHash : String) :
    (buildReceiptMessage tid count memoryHash outputHash).toList =
      ['|'].intercalate [tid.toList, count.toList, memoryHash.toList, outputHash.toList] := by
  simp [buildReceiptMessage, List.intercalate, String.toList_append]

/-- However a message is split into fields, they are the ones it was built from. -/
theorem buildReceiptMessage_inj {tid count memoryHash outputHash : String}
    {tid' count' memoryHash' outputHash' : String}
    (h : buildReceiptMessage tid count memoryHash outputHash =
      buildReceiptMessage tid' count' memoryHash' outputHash')
    (htid : Plain tid') (hcount : Plain count') (hmemory : Plain memoryHash')
    (houtput : Plain outputHash') :
    tid = tid' ∧ count = count' ∧ memoryHash = memoryHash' ∧ outputHash = outputHash' := by
  have hlist := congrArg String.toList h
  rw [buildReceiptMessage_toList, buildReceiptMessage_toList] at hlist
  have hplain : ∀ ys ∈ [tid'.toList, count'.toList, memoryHash'.toList, outputHash'.toList],
      '|' ∉ ys := by
    simp only [List.forall_mem_cons]
    exact ⟨htid, hcount, hmemory, houtput, List.forall_mem_nil _⟩
  have hfields := intercalate_inj (by rfl) hplain hlist
  simp only [List.cons.injEq, and_true, String.toList_inj] at hfields
  exact hfields

theorem toString_int_eq {i : Int} {n : Nat} (h : toString i = toString n) : i = n := by
  have hdigits : (toString n).toList = Nat.toDigits 10 n := by simp [toString, Nat.repr]
  cases i with
  | ofNat m =>
    have hm : (toString m).toList = Nat.toDigits 10 m := by simp [toString, Nat.repr]
    have hsame : Nat.toDigits 10 m = Nat.toDigits 10 n := by
      rw [← hm, ← hdigits, ← h]
      rfl
    have hmn : m = n := by
      rw [← Nat.ofDigitChars_ten_toDigits (n := m), hsame, Nat.ofDigitChars_ten_toDigits]
    rw [hmn]
    rfl
  | negSucc m =>
    -- a negative number starts with a sign
    have hsign : '-' ∈ (toString n).toList := by
      rw [← h, show toString (Int.negSucc m) = "-" ++ Nat.repr (m + 1) from rfl,
        String.toList_append]
      exact List.mem_append_left _ (by decide)
    rw [hdigits] at hsign
    have hchar := Nat.isDigit_of_mem_toDigits (by decide) (by decide) hsign
    exact absurd hchar (by decide)

/-! ## Workers that sign -/

section Signed

variable [Sha256]

/-- A receipt a worker has signed: its key pair, the task it has run and the result of the run. -/
structure Report where
  pair : Nat
  tid : Tid
  result : ExecutionResult

/-- What is signed with an honest key has been signed in a report. -/
def Action.Unforged (honest : Nat → Prop) (reports : List Report) (a : Action) : Prop :=
  ∀ auth tid claimToken resultBytes receipt pair message,
    a = .result auth tid claimToken (.octetStream resultBytes (.object receipt)) →
    receipt.signature = .decoded (.pss pair message) → honest pair →
    ∃ report ∈ reports, report.pair = pair ∧ message = canonical report.tid report.result

/-- Runs in which workers run tasks they have downloaded and sign their receipts.  A submission may
come from anyone and carry any receipt, with a signature that has been made. -/
inductive SignedRun (honest : Nat → Prop) : List Report → List Entry → Store → Prop
  | start (deployment userApi nodeRegistrationToken) :
      SignedRun honest [] [] (Store.initial deployment userApi nodeRegistrationToken)
  | report {reports tr s n} (report : Report) : SignedRun honest reports tr s →
      (∃ e ∈ tr, e.downloads n report.tid) → s.nodePublicKey n = some (.rsa report.pair) →
      SignedRun honest (reports ++ [report]) tr s
  | requests {reports tr tr' s s'} : SignedRun honest reports tr s → Run (tr ++ tr') s' →
      (∀ e ∈ tr', e.action.Unforged honest reports) → SignedRun honest reports (tr ++ tr') s'

variable {honest : Nat → Prop} {reports : List Report} {tr : List Entry} {s s' : Store} {e : Entry}

theorem SignedRun.run (h : SignedRun honest reports tr s) : Run tr s := by
  induction h with
  | start => exact .start _ _ _
  | report _ _ _ _ ih => exact ih
  | requests _ hr => exact hr

theorem Action.Unforged.mono {reports' : List Report} {a : Action}
    (h : a.Unforged honest reports) (hsub : ∀ report ∈ reports, report ∈ reports') :
    a.Unforged honest reports' := by
  intro auth tid claimToken resultBytes receipt pair message ha hsig hp
  obtain ⟨report, hmem, hreport⟩ :=
    h auth tid claimToken resultBytes receipt pair message ha hsig hp
  exact ⟨report, hsub report hmem, hreport⟩

theorem SignedRun.unforged (h : SignedRun honest reports tr s) (he : e ∈ tr) :
    e.action.Unforged honest reports := by
  induction h with
  | start => cases he
  | report _ _ _ _ ih => exact (ih he).mono fun r hr ↦ List.mem_append_left _ hr
  | requests _ _ hu ih =>
    rcases List.mem_append.mp he with he | he
    · exact ih he
    · exact hu e he

theorem SignedRun.perform {fuel : Nat} {actions : List Action} {entries : List Entry}
    (h : SignedRun honest reports tr s) (hp : perform fuel s actions = some entries)
    (hd : (tr.flatMap (·.action.draws) ++ actions.flatMap Action.draws).Nodup)
    (hu : ∀ a ∈ actions, a.Unforged honest reports) :
    SignedRun honest reports (tr ++ entries) (lastStore s entries) := by
  refine h.requests (h.run.perform hp hd) fun e he ↦ hu e.action ?_
  rw [← perform_actions hp]
  exact List.mem_map_of_mem he

/-- A receipt that a worker sends carries the signature of its report. -/
theorem Action.unforged_reportSuccess {report : Report} (hmem : report ∈ reports) (auth : NodeAuth)
    (tid : Tid) (claimToken : Option Token) (resultBytes : List UInt8) :
    (Action.result auth tid claimToken (.octetStream resultBytes
      (.object (reportSuccess report.pair report.tid report.result)))).Unforged honest reports := by
  intro _ _ _ _ receipt pair message ha hsig _
  injection ha with _ _ _ hbody
  injection hbody with _ hheader
  injection hheader with hreceipt
  rw [← hreceipt] at hsig
  injection hsig with hsig
  injection hsig with hpair hmessage
  exact ⟨report, hmem, hpair, hmessage.symm⟩

/-! ## Accepted receipts -/

/-- What a receipt must have to verify. -/
theorem receiptVerdict_verified {key : Option PublicKey} {receipt : Receipt}
    {resultBytes : List UInt8} {nodeId : NodeId} {pair : Nat} (hkey : key = some (.rsa pair))
    (h : receiptVerdict key receipt resultBytes nodeId = .verified) :
    receipt.signature = .decoded (.pss pair (receipt.message (Sha256.hexdigest resultBytes))) := by
  subst hkey
  rw [receiptVerdict] at h
  cases ho : receipt.outputField with
  | none => simp only [ho, reduceCtorEq] at h
  | some outputHash =>
    simp only [ho] at h
    split at h
    · cases h
    · rename_i hout
      obtain rfl : outputHash = Sha256.hexdigest resultBytes := not_not.mp hout
      cases hs : receipt.signature with
      | undecodable => simp only [hs, reduceCtorEq] at h
      | decoded signature =>
        simp only [hs] at h
        split at h
        · rename_i hv
          cases signature with
          | garbage => cases hv
          | pss signer message =>
            rw [PublicKey.verify, Bool.and_eq_true, beq_iff_eq, beq_iff_eq] at hv
            rw [hv.1, hv.2]
        · cases h

omit [Sha256] in
/-- The increment for a count whose text is that of a number is the number. -/
theorem incrbyAmount_text {count : Json} {amount : Int} {n : Nat}
    (htext : count.text = toString n) (h : incrbyAmount count = some amount) : amount = n := by
  cases count with
  | int i =>
    rw [incrbyAmount] at h
    split at h
    · obtain rfl := Option.some.inj h
      exact toString_int_eq htext
    · cases h
  | str text =>
    rw [incrbyAmount, parseInt64] at h
    split at h
    · split at h
      · rename_i i _ hi
        obtain rfl := Option.some.inj h
        exact toString_int_eq (hi.1.trans htext)
      · cases h
    · cases h
  | null | bool | float | container => cases h

/-- The receipt of a submission for `t` is the one a report has signed, over the bytes that were
submitted, and with the count that is charged. -/
structure SignedBy (e : Entry) (t : Tid) (resultBytes : List UInt8) (receipt : Receipt)
    (report : Report) : Prop where
  signature : receipt.signature =
    .decoded (.pss report.pair (canonical report.tid report.result))
  outputHash : Sha256.hexdigest report.result.output = Sha256.hexdigest resultBytes
  charged : ∀ task apiKey, e.before.task t = some task →
    (e.before.deployment task.pid).bind (·.apiKey) = some apiKey →
    e.after.instructionsUsed apiKey = some
      ((e.before.instructionsUsed apiKey).getD 0 + report.result.instructionCount.toNat)

theorem canonical_eq (tid : Tid) (result : ExecutionResult) :
    canonical tid result = buildReceiptMessage tid.text (toString result.instructionCount.toNat)
      result.memoryHash (Sha256.hexdigest result.output) := rfl

/-- A signed message tells what it has been signed for. -/
theorem message_canonical {tid count memoryHash outputHash : String} {t : Tid}
    {result : ExecutionResult}
    (h : buildReceiptMessage tid count memoryHash outputHash = canonical t result) :
    tid = t.text ∧ count = toString result.instructionCount.toNat ∧
      outputHash = Sha256.hexdigest result.output := by
  rw [canonical_eq] at h
  obtain ⟨memory, hmemory⟩ := result.hashed
  have hplain : Plain result.memoryHash := by
    rw [hmemory]
    exact plain_hexdigest memory
  obtain ⟨htid, hcount, -, hout⟩ := buildReceiptMessage_inj h t.plain (plain_toString _) hplain
    (plain_hexdigest _)
  exact ⟨htid, hcount, hout⟩

omit [Sha256] in
/-- The charge for a receipt is the increment for its count. -/
theorem chargeFor_charged {pid : Pid} {receipt : Receipt} {s₁ : Store} {apiKey : ApiKey}
    (h : s.chargeFor pid receipt = some s₁)
    (hkey : (s.deployment pid).bind (·.apiKey) = some apiKey) :
    ∃ amount, incrbyAmount receipt.countField = some amount ∧
      s₁.instructionsUsed apiKey = some ((s.instructionsUsed apiKey).getD 0 + amount) := by
  rw [Store.chargeFor, hkey] at h
  obtain ⟨amount, hamount, rfl⟩ := Option.map_eq_some_iff.mp h
  have hincr : incrbyAmount receipt.countField = some amount := by
    rw [usageAmount] at hamount
    split at hamount
    · rename_i a ha
      split at hamount
      · rw [ha, Option.some.inj hamount]
      · cases hamount
    · cases hamount
  refine ⟨amount, hincr, ?_⟩
  rw [Store.charge_instructionsUsed, Function.update_self]

/-- An accepted receipt has been signed in a report for the task it names. -/
theorem SignedRun.accepted (h : SignedRun honest reports tr s) (he : e ∈ tr) {auth : NodeAuth}
    {t : Tid} {claimToken : Option Token} {resultBytes : List UInt8} {receipt : Receipt}
    (ha : e.action = .result auth t claimToken (.octetStream resultBytes (.object receipt)))
    (hr : e.response.ended = some .completed) :
    ∃ n task, MaySubmit e.before auth t claimToken n task ∧
      ∀ pair, e.before.nodePublicKey n = some (.rsa pair) → honest pair →
        ∃ report ∈ reports, report.pair = pair ∧ receipt.tidField.text = report.tid.text ∧
          SignedBy e t resultBytes receipt report := by
  have hunforged := h.unforged he
  obtain ⟨tr₁, tr₂, rfl⟩ := List.append_of_mem he
  have hsubmitted := h.run.submitted ha
  generalize hresponse : e.response = r at hsubmitted hr
  generalize hafter : e.after = s₂ at hsubmitted
  cases hsubmitted with
  | refused hf => cases r <;> simp [Response.ended, Response.refusal] at hr hf
  | rejected => cases hr
  | @completed n task _ _ s₁ _ hmay hverified hcharge hs₂ =>
    refine ⟨n, task, hmay, fun pair hkey hp ↦ ?_⟩
    have hsig := receiptVerdict_verified hkey hverified
    obtain ⟨report, hmem, hpair, hmessage⟩ :=
      hunforged auth t claimToken resultBytes receipt pair _ ha hsig hp
    obtain ⟨htid, hcount, hout⟩ := message_canonical hmessage
    refine ⟨report, hmem, hpair, htid, ?_, hout.symm, fun task' apiKey ht hapi ↦ ?_⟩
    · rw [hsig, hpair, hmessage]
    · obtain rfl := Option.some.inj (ht.symm.trans hmay.stored)
      obtain ⟨amount, hincr, hused⟩ := chargeFor_charged hcharge hapi
      rw [incrbyAmount_text hcount hincr] at hused
      rw [hafter, hs₂]
      exact hused

/-- In every run in which honest keys sign only the receipts of tasks their nodes have run, an
accepted receipt of a node with an honest key is one it has signed for the task in the URL, over
the accepted bytes and with the count that is charged, if and only if the task id in the receipt
is the one in the URL. -/
theorem receipt_bound_iff (h : SignedRun honest reports tr s) (he : e ∈ tr) {auth : NodeAuth}
    {t : Tid} {claimToken : Option Token} {resultBytes : List UInt8} {receipt : Receipt}
    (ha : e.action = .result auth t claimToken (.octetStream resultBytes (.object receipt)))
    (hr : e.response.ended = some .completed) :
    ∃ n task, auth.nodeId = some n ∧ e.before.task t = some task ∧
      task.assignedNode = some n ∧
      ∀ pair, e.before.nodePublicKey n = some (.rsa pair) → honest pair →
        ((∃ report ∈ reports, report.pair = pair ∧ report.tid = t ∧
          SignedBy e t resultBytes receipt report) ↔ receipt.tidField.text = t.text) := by
  obtain ⟨n, task, hmay, hsigned⟩ := h.accepted he ha hr
  refine ⟨n, task, hmay.auth.nodeId, hmay.stored, hmay.assigned, fun pair hkey hp ↦ ?_⟩
  obtain ⟨report, hmem, hpair, htid, hby⟩ := hsigned pair hkey hp
  constructor
  · -- the signature fixes the task it was made for
    rintro ⟨report', -, -, rfl, hby'⟩
    have hsig := hby.signature.symm.trans hby'.signature
    have hmessage : canonical report.tid report.result = canonical report'.tid report'.result := by
      injection hsig with hsig
      injection hsig
    rw [htid]
    exact (message_canonical ((canonical_eq _ _).symm.trans hmessage)).1
  · intro hurl
    have hsame : report.tid = t := Name.text_injective (htid.symm.trans hurl)
    exact ⟨report, hmem, hpair, hsame, hby⟩

end Signed

namespace Sample

theorem hashed_nil : ∃ memory, Sha256.hexdigest [] = Sha256.hexdigest memory := ⟨[], rfl⟩

/-- `nodeA` runs `task1`, without output. -/
def report1 : Report where
  pair := 1
  tid := task1
  result := ⟨[], 7, Sha256.hexdigest [], hashed_nil⟩

def receipt1 : ResultBody :=
  .octetStream [] (.object (reportSuccess report1.pair report1.tid report1.result))

def downloadTask1 : List Action :=
  [.tick second, join nodeA keyA (some 1), create task1 (some nodeA), create task2 (some nodeA),
    .claim authA claim1 download1, .download authA task1 (some download1)]

theorem signedRun_report1 : SignedRun (fun _ ↦ True) [report1]
    (performed 200 server downloadTask1) (lastStore server (performed 200 server downloadTask1)) := by
  have hsome : (perform 200 server downloadTask1).isSome = true := by decide +kernel
  obtain ⟨entries, hentries⟩ := Option.isSome_iff_exists.mp hsome
  have hstart : SignedRun (fun _ ↦ True) [] ([] ++ entries) (lastStore server entries) := by
    refine (SignedRun.start _ _ _).perform hentries (by decide +kernel) fun a ha ↦ ?_
    intro auth tid c bytes receipt pair message he
    rw [he] at ha
    simp [downloadTask1, join, create] at ha
  have hperformed : performed 200 server downloadTask1 = entries := by
    rw [performed, hentries, Option.getD_some]
  rw [hperformed]
  have hlast : entries.getLast?.map (fun e ↦ e.response.refusal) = some false := by
    rw [← hperformed]
    decide +kernel
  have hkey : (lastStore server entries).nodePublicKey nodeA = some (.rsa 1) := by
    rw [← hperformed]
    decide +kernel
  -- the last step is the download
  have haction : entries.getLast?.map (·.action) = some (.download authA task1 (some download1)) := by
    rw [← List.getLast?_map, perform_actions hentries]
    rfl
  obtain ⟨e, he, hok⟩ := Option.map_eq_some_iff.mp hlast
  rw [he, Option.map_some, Option.some.injEq] at haction
  have hmem : e ∈ [] ++ entries := List.mem_of_getLast? he
  exact hstart.report report1 ⟨e, hmem, ⟨authA, some download1, haction, rfl⟩, hok⟩ hkey

end Sample

open Sample in
theorem receipt_bound_iff_task1 :
    ∃ tr s e, SignedRun (fun _ ↦ True) [report1] (tr ++ [e]) s ∧
      e.action = .result authA task1 (some claim1) receipt1 ∧
      e.response.ended = some .completed ∧
      ∃ report ∈ [report1], report.pair = 1 ∧ report.tid = task1 ∧
        SignedBy e task1 [] (reportSuccess 1 task1 report1.result) report := by
  have hsigned := signedRun_report1
  generalize htr : performed 200 server downloadTask1 = tr at hsigned
  have hended : (exec 100 (handle (.result authA task1 (some claim1) receipt1))
      (lastStore server tr)).map (·.1.ended) = some (some .completed) := by
    rw [← htr]
    decide +kernel
  have hkey : (lastStore server tr).nodePublicKey nodeA = some (.rsa 1) := by
    rw [← htr]
    decide +kernel
  obtain ⟨⟨r, s'⟩, hexec, hr⟩ := Option.map_eq_some_iff.mp hended
  have hstep := hsigned.run.step (.of_draws_nil rfl) (runs_of_exec hexec)
  have hrun := hsigned.requests hstep fun e he ↦ by
    rw [List.mem_singleton.mp he]
    exact Action.unforged_reportSuccess List.mem_cons_self _ _ _ _
  refine ⟨tr, s', _, hrun, rfl, hr, ?_⟩
  obtain ⟨n, task, hn, -, -, hiff⟩ := receipt_bound_iff hrun
    (List.mem_append_right _ List.mem_cons_self) rfl hr
  obtain rfl : n = nodeA := (Option.some.inj hn).symm
  exact (hiff 1 hkey trivial).mpr rfl

open Sample in
/-- The receipt that `nodeA` has signed for `task1` is accepted for `task2`, for which it has never
signed one. -/
theorem receipt_accepted_elsewhere :
    ∃ tr s, SignedRun (fun _ ↦ True) [report1] tr s ∧
      (tr.getLast?.map fun e ↦ e.response.ended) = some (some .completed) ∧
      (s.task task2).map (·.status) = some .completed := by
  have hsigned := signedRun_report1
  have hsome : (perform 200 (lastStore server (performed 200 server downloadTask1))
      [.result authA task1 (some claim1) receipt1, .claim authA claim2 download2,
        .result authA task2 (some claim2) receipt1]).isSome = true := by
    decide +kernel
  obtain ⟨entries, hentries⟩ := Option.isSome_iff_exists.mp hsome
  have hperformed : performed 200 (lastStore server (performed 200 server downloadTask1))
      [.result authA task1 (some claim1) receipt1, .claim authA claim2 download2,
        .result authA task2 (some claim2) receipt1] = entries := by
    rw [performed, hentries, Option.getD_some]
  have hrun := hsigned.perform hentries (by decide +kernel) fun a ha ↦ by
    have hcases : a = .result authA task1 (some claim1) receipt1 ∨
        a = .claim authA claim2 download2 ∨ a = .result authA task2 (some claim2) receipt1 := by
      simpa using ha
    rcases hcases with rfl | rfl | rfl
    · exact Action.unforged_reportSuccess List.mem_cons_self _ _ _ _
    · intro _ _ _ _ _ _ _ he
      cases he
    · exact Action.unforged_reportSuccess List.mem_cons_self _ _ _ _
  refine ⟨_, _, hrun, ?_, ?_⟩
  · rw [← hperformed]
    decide +kernel
  · rw [← hperformed]
    decide +kernel

end TandemAio
