import TandemAio.ManifestUpload

/-!
# Manifests of text without surrogates

What the planner does with an uploaded manifest is what it does with the typed entries that the
manifest holds, as long as no lone surrogate stands in a text of it.
-/

open Reasoning

namespace TandemAio

/-! ## Strings -/

section Strings

theorem splitOnP_map {α β : Type} (f : α → β) (p : β → Bool) (l : List α) :
    (l.map f).splitOnP p = (l.splitOnP (p ∘ f)).map (List.map f) := by
  induction l with
  | nil => simp
  | cons x xs ih =>
    rw [List.map_cons, List.splitOnP_cons_eq_if_modifyHead,
      List.splitOnP_cons_eq_if_modifyHead, ih]
    simp only [Function.comp_apply]
    split
    · simp
    · cases xs.splitOnP (p ∘ f) <;> simp

theorem spacePoint_charPoint (c : Char) : spacePoint (charPoint c) = isspace c := by
  rw [spacePoint, isspace, charPoint_val]

theorem strip_points (s : String) : PyStr.strip (points s) = points (strStrip s) := by
  have hspace : spacePoint ∘ charPoint = isspace := funext spacePoint_charPoint
  unfold PyStr.strip strStrip stripChars points
  rw [String.toList_ofList, List.dropWhile_map, hspace]
  unfold List.rdropWhile
  rw [← List.map_reverse, List.dropWhile_map, hspace, List.map_reverse]

theorem pathNamePoints_points (s : String) : pathNamePoints (points s) = points (pathName s) := by
  have hslash : (fun c ↦ c == charPoint '/') ∘ charPoint = fun c ↦ c == '/' := by
    funext c
    simp [charPoint_inj]
  have hkeep : (fun part ↦ decide (part ≠ [] ∧ part ≠ [charPoint '.'])) ∘ List.map charPoint =
      fun part ↦ decide (part ≠ [] ∧ part ≠ ['.']) := by
    funext part
    have hdot : part.map charPoint = [charPoint '.'] ↔ part = ['.'] := by
      cases part with
      | nil => simp
      | cons c rest => simp [charPoint_inj]
    simp [hdot]
  unfold pathNamePoints pathName points
  rw [String.toList_ofList, splitOnP_map, hslash, List.filter_map, hkeep, List.getLast?_map]
  cases ((s.toList.splitOnP fun c ↦ c == '/').filter fun part ↦
    decide (part ≠ [] ∧ part ≠ ['.'])).getLast? <;> rfl

theorem secureFilenamePoints_points [AsciiFold] (s : String) :
    secureFilenamePoints (points s) = secureFilename s := by
  unfold secureFilenamePoints
  rw [chars_points, String.ofList_toList]

theorem lowerPoints_points (s : String) : lowerPoints (points s) = points (lower s) := by
  unfold lowerPoints lower points
  rw [String.toList_ofList, List.map_map, List.map_map]
  apply List.map_congr_left
  intro c _
  have hA : charPoint 'A' ≤ charPoint c ↔ 'A'.toNat ≤ c.toNat := by
    rw [Fin.le_def, charPoint_val, charPoint_val]
  have hZ : charPoint c ≤ charPoint 'Z' ↔ c.toNat ≤ 'Z'.toNat := by
    rw [Fin.le_def, charPoint_val, charPoint_val]
  simp only [Function.comp_apply, hA, hZ]
  by_cases hupper : 'A'.toNat ≤ c.toNat ∧ c.toNat ≤ 'Z'.toNat
  · have hle : c.val.toNat ≤ 90 := hupper.2
    have hlower : c.toLower.toNat = c.toNat + 32 := by
      have hval : c.val ≥ 'A'.val ∧ c.val ≤ 'Z'.val := hupper
      unfold Char.toLower
      rw [dif_pos hval]
      show (c.val + ('a'.val - 'A'.val)).toNat = c.val.toNat + 32
      rw [UInt32.toNat_add, show ('a'.val - 'A'.val).toNat = 32 from rfl]
      omega
    rw [if_pos hupper]
    apply Fin.ext
    rw [charPoint_val, hlower, Fin.val_add, charPoint_val]
    exact Nat.mod_eq_of_lt (show c.val.toNat + 32 < 0x110000 by omega)
  · have hlower : c.toLower = c := by
      unfold Char.toLower
      exact dif_neg hupper
    rw [if_neg hupper, hlower]

theorem points_append (s t : String) : points (s ++ t) = points s ++ points t := by
  unfold points
  rw [String.toList_append, List.map_append]

theorem points_eq_nil {s : String} : points s = [] ↔ s = "" := points_inj (t := "")

theorem quotedPoints_points (s : String) : quotedPoints (points s) = points (quoted s) := by
  unfold quoted
  rw [points_append, points_append]
  rfl

/-- Text without a lone surrogate. -/
def WholeText (s : PyStr) : Prop := ∀ c ∈ s, ¬c.IsSurrogate

/-- The text of a string without lone surrogates. -/
def wholeText (s : PyStr) : String := String.ofList (chars s)

theorem points_wholeText {s : PyStr} (h : WholeText s) : points (wholeText s) = s := by
  unfold points wholeText chars
  rw [String.toList_ofList]
  induction s with
  | nil => rfl
  | cons c s ih =>
    have hc := h c List.mem_cons_self
    have hvalid : c.val.isValidChar := by
      have hlt := c.isLt
      unfold CodePoint.IsSurrogate at hc
      unfold Nat.isValidChar
      omega
    have hchar : charPoint (Char.ofNat c.val) = c := by
      apply Fin.ext
      rw [charPoint_val, Char.ofNat, dif_pos hvalid]
      rfl
    rw [List.filterMap_cons, CodePoint.char?, if_neg hc]
    simp only [List.map_cons, hchar]
    rw [ih fun d hd ↦ h d (List.mem_cons_of_mem _ hd)]

end Strings

/-! ## Entries -/

section Entries

variable [PythonText]

/-- `str(fields.get(key) or "")` -/
def rawText (fields : JsonFields) (key : String) : PyStr :=
  let value := getField fields key
  if value.truthy then value.toStr else []

/-- An option by what `int` makes of it. -/
def typedOption (value : JsonValue) : Option OptionValue :=
  match value with
  | .null => none
  | value =>
    match value.toInt with
    | .ok n => some (.int n)
    | .error .invalid => some .unparsable
    | .error .overflowError => some .infinite

/-- The split hint of an entry. -/
def typedSplit (rawEntry : JsonFields) : Option SplitHint :=
  match getField rawEntry "split" with
  | .dict splitHint => some
      { strategy := wholeText (rawText splitHint "strategy")
        chunk := typedOption (getField splitHint "chunk")
        maxShards := typedOption (getField splitHint "max_shards") }
  | _ => none

/-- The entry that an object of the manifest holds. -/
def typedEntry (rawEntry : JsonFields) : ManifestEntry where
  name := wholeText (rawText rawEntry "name")
  qualname := wholeText (rawText rawEntry "qualname")
  wasm := wholeText (rawText rawEntry "wasm")
  timeoutMs := typedOption (getField rawEntry "timeout_ms")
  split := typedSplit rawEntry

/-- An entry whose texts have no lone surrogates. -/
structure WholeEntry (rawEntry : JsonFields) : Prop where
  name : WholeText (rawText rawEntry "name")
  wasm : WholeText (rawText rawEntry "wasm")
  strategy : ∀ splitHint, getField rawEntry "split" = .dict splitHint →
    WholeText (rawText splitHint "strategy")

theorem textField_eq {fields : JsonFields} {key : String} (h : WholeText (rawText fields key)) :
    textField fields key = points (strStrip (wholeText (rawText fields key))) := by
  rw [← strip_points, points_wholeText h]
  rfl

theorem coerceValue_typed (value : JsonValue) :
    coerceValue value = (coerceNonNegativeInt (typedOption value)).mapError planRaises := by
  unfold coerceValue coerceNonNegativeInt typedOption
  cases value with
  | null => rfl
  | _ =>
    dsimp only
    split
    · rename_i heq
      rw [heq]
      rfl
    · rename_i heq
      rw [heq]
      rfl
    · rename_i heq
      rw [heq]
      rfl

theorem rawCap_typed (splitHint : JsonFields) :
    typedOption (rawCap splitHint) = (typedOption (getField splitHint "chunk") <|>
      typedOption (getField splitHint "max_shards")) := by
  unfold rawCap
  cases getField splitHint "chunk" with
  | null => rfl
  | _ =>
    dsimp only [typedOption]
    split <;> rfl

theorem plannedShards_typed {rawEntry : JsonFields} (available : AvailableNodes)
    (h : WholeEntry rawEntry) :
    plannedShards rawEntry available.nodes.length =
      (plannedWasmShards (typedEntry rawEntry) available).mapError planRaises := by
  unfold plannedShards plannedWasmShards typedEntry typedSplit
  cases hsplit : getField rawEntry "split" with
  | dict splitHint =>
    have hstrategy : lowerPoints (textField splitHint "strategy") = points "data_parallel" ↔
        lower (strStrip (wholeText (rawText splitHint "strategy"))) = "data_parallel" := by
      rw [textField_eq (h.strategy splitHint hsplit), lowerPoints_points, points_inj]
    dsimp only
    by_cases hdata : lower (strStrip (wholeText (rawText splitHint "strategy"))) = "data_parallel"
    · rw [if_neg (not_not.mpr (hstrategy.mpr hdata)), if_neg (not_not.mpr hdata),
        coerceValue_typed, rawCap_typed]
      cases coerceNonNegativeInt (typedOption (getField splitHint "chunk") <|>
          typedOption (getField splitHint "max_shards")) with
      | error e => rfl
      | ok cap =>
        dsimp only [Except.mapError, bind, Except.bind]
        split <;> rfl
    · rw [if_pos fun hs ↦ hdata (hstrategy.mp hs), if_pos hdata]
      rfl
  | _ => rfl

/-! ## Plans -/

/-- A task of the typed planner. -/
def PlannedTask.toWasm (task : PlannedTask) : WasmTask where
  filename := task.filename
  payload := task.payload
  assignedNode := task.assignedNode
  taskName := points task.taskName
  timeoutMs := task.timeoutMs
  shard := task.shard

omit [PythonText] in
theorem wasmShards_typed (queued : NodeId → Nat) (available : AvailableNodes)
    (task : NodeId → PlannedTask) (shardTotal shardIndex left : Nat) (load : NodeLoad) :
    wasmShards queued available (fun node ↦ (task node).toWasm) shardTotal shardIndex left load =
      ((planShards queued available task shardTotal shardIndex left load).1.map
        PlannedTask.toWasm,
        (planShards queued available task shardTotal shardIndex left load).2) := by
  induction left generalizing shardIndex load with
  | zero => rfl
  | succ left ih =>
    rw [wasmShards, planShards]
    dsimp only
    rw [ih]
    rfl

variable [AsciiFold]

theorem entryUploadName_typed {rawEntry : JsonFields} (h : WholeEntry rawEntry) :
    entryUploadName rawEntry = (typedEntry rawEntry).uploadName := by
  unfold entryUploadName ManifestEntry.uploadName
  rw [textField_eq h.wasm, pathNamePoints_points, secureFilenamePoints_points]
  rfl

/-- The planner of uploaded manifests plans the typed entries of a manifest. -/
theorem planRawEntries_typed (queued : NodeId → Nat) (available : AvailableNodes)
    (uploads : List (String × List UInt8)) {entries : List JsonFields} (load : NodeLoad)
    (h : ∀ rawEntry ∈ entries, WholeEntry rawEntry) :
    planRawEntries queued available uploads (entries.map .dict) load =
      ((planEntries queued available uploads (entries.map typedEntry) load).map
        fun (planned, used) ↦ (planned.map PlannedTask.toWasm, used)).mapError planRaises := by
  induction entries generalizing load with
  | nil => rfl
  | cons rawEntry rest ih =>
    have hwhole := h rawEntry List.mem_cons_self
    have hrest := fun load ↦ ih load fun e he ↦ h e (List.mem_cons_of_mem _ he)
    have hname : textField rawEntry "name" = points (strStrip (typedEntry rawEntry).name) :=
      textField_eq hwhole.name
    have hwasm : textField rawEntry "wasm" = points (strStrip (typedEntry rawEntry).wasm) :=
      textField_eq hwhole.wasm
    have hupload := entryUploadName_typed hwhole
    have hshards := plannedShards_typed available hwhole
    have htimeout : coerceValue (getField rawEntry "timeout_ms") =
        (coerceNonNegativeInt (typedEntry rawEntry).timeoutMs).mapError planRaises :=
      coerceValue_typed _
    rw [List.map_cons, List.map_cons, planRawEntries, planEntries, entryPayload]
    dsimp only
    rw [hname, hwasm, hupload, hshards, htimeout]
    simp only [points_eq_nil]
    unfold ManifestEntry.uploadName
    by_cases hnames : strStrip (typedEntry rawEntry).name = "" ∨
        strStrip (typedEntry rawEntry).wasm = ""
    · rw [if_pos hnames, if_pos hnames]
      rfl
    rw [if_neg hnames, if_neg hnames]
    by_cases hempty : secureFilename (pathName (strStrip (typedEntry rawEntry).wasm)) = ""
    · rw [if_pos hempty, if_pos hempty, quotedPoints_points, ← points_append, ← points_append]
      rfl
    rw [if_neg hempty, if_neg hempty]
    cases uploads.lookup (secureFilename (pathName (strStrip (typedEntry rawEntry).wasm))) with
    | none =>
      dsimp only
      rw [quotedPoints_points, ← points_append, ← points_append]
      simp only [String.append_assoc]
      rfl
    | some payload =>
      dsimp only
      cases plannedWasmShards (typedEntry rawEntry) available with
      | error e => rfl
      | ok shardTotal =>
        cases coerceNonNegativeInt (typedEntry rawEntry).timeoutMs with
        | error e => rfl
        | ok timeoutMs =>
          have hgroup := wasmShards_typed queued available (fun node ↦
            ⟨secureFilename (pathName (strStrip (typedEntry rawEntry).wasm)), payload, node,
              strStrip (typedEntry rawEntry).name, timeoutMs, none⟩) shardTotal 0 shardTotal load
          dsimp only [PlannedTask.toWasm] at hgroup
          dsimp only [Except.mapError, bind, Except.bind]
          rw [hgroup]
          dsimp only
          rw [hrest]
          cases planEntries queued available uploads (rest.map typedEntry) _ with
          | error e => rfl
          | ok result =>
            dsimp only [Except.map, Except.mapError]
            rw [← List.map_append]
            rfl

/-- `_plan_wasm_tasks` makes the typed plan of a manifest without lone surrogates. -/
theorem planWasmManifest_typed (queued : NodeId → Nat) (available : AvailableNodes)
    {manifest : JsonManifest} {entries : List JsonFields} (files : List Upload)
    (htasks : manifest.tasks = entries.map .dict)
    (h : ∀ rawEntry ∈ entries, WholeEntry rawEntry) :
    planWasmManifest queued available manifest files =
      ((planWasmTasks queued available (entries.map typedEntry) files).map
        (List.map PlannedTask.toWasm)).mapError planRaises := by
  unfold planWasmManifest planWasmTasks
  rw [htasks]
  cases collectWasmUploads files with
  | error e => rfl
  | ok uploads =>
    dsimp only [Except.mapError, bind, Except.bind]
    rw [planRawEntries_typed queued available uploads _ h]
    cases planEntries queued available uploads (entries.map typedEntry) fun _ ↦ 0 with
    | error e => rfl
    | ok result =>
      obtain ⟨planned, used⟩ := result
      dsimp only [Except.map, Except.mapError]
      simp only [List.map_eq_nil_iff]
      split
      · rfl
      · split
        · rfl
        · rfl

end Entries

end TandemAio
