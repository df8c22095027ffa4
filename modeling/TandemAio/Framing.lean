import TandemAio.Artifact

/-!
# `executor.rs` of the node, and the payloads of the SDK and the CLI

A task payload is `TNDM`, the length of the WASM binary in four little-endian bytes, the binary
and its input.  The node splits it again, and picks a runtime by the header of the binary.
-/

open Reasoning

namespace TandemAio

/-- `b"TNDM"` -/
def tndm : List UInt8 := [0x54, 0x4e, 0x44, 0x4d]

/-! ## The encoders -/

/-- `n.to_bytes(4, "little")`; `none` is an `OverflowError`. -/
def toBytesLittle (n : Nat) : Option (List UInt8) :=
  if n < 2 ^ 32 then some (leBytes 4 n) else none

/-- `combined_payload` of `submit_task`, in `rpc.py`. -/
def submitTask.combinedPayload (wasmBytes inputJson : List UInt8) : Option (List UInt8) := do
  let len ← toBytesLittle wasmBytes.length
  return tndm ++ len ++ wasmBytes ++ inputJson

/-- `framed_blob` of `start_project`, in `cli/remote.py`. -/
def startProject.framedBlob (wasmBytes emptyInput : List UInt8) : Option (List UInt8) := do
  let len ← toBytesLittle wasmBytes.length
  return tndm ++ len ++ wasmBytes ++ emptyInput

/-- The encoders of the two clients. -/
def payloadEncoders : List (List UInt8 → List UInt8 → Option (List UInt8)) :=
  [submitTask.combinedPayload, startProject.framedBlob]

/-! ## The node -/

/-- `wasm_bytes` and `input_bytes` of `execute_wasm`. -/
def splitPayload (payload : List UInt8) : List UInt8 × List UInt8 :=
  if tndm <+: payload ∧ 8 ≤ payload.length then
    let wasmLen := ofLeBytes (slice payload 4 8)
    if 8 + wasmLen ≤ payload.length then
      (slice payload 8 (8 + wasmLen), payload.drop (8 + wasmLen))
    else
      -- a length that runs past the end: not a frame after all
      (payload, [])
  else
    (payload, [])

def isComponent (wasmBytes : List UInt8) : Bool :=
  decide (8 ≤ wasmBytes.length ∧ slice wasmBytes 4 8 = componentVersion)

def defaultFuel : UInt64 := 1000000000

/-- The multiplication wraps, as in a release build. -/
def fuelBudget (timeoutMs : Option UInt64) : UInt64 :=
  match timeoutMs with
  | none => defaultFuel
  | some ms => ms * 10000

/-- The runtime that a payload is handed to, and its arguments. -/
inductive Execution
  | runComponent (wasmBytes inputBytes : List UInt8) (fuelBudget : UInt64)
  | runCoreModule (wasmBytes inputBytes : List UInt8) (fuelBudget : UInt64)
deriving DecidableEq

def executeWasm (payload : List UInt8) (timeoutMs : Option UInt64) : Execution :=
  let (wasmBytes, inputBytes) := splitPayload payload
  if isComponent wasmBytes then
    .runComponent wasmBytes inputBytes (fuelBudget timeoutMs)
  else
    .runCoreModule wasmBytes inputBytes (fuelBudget timeoutMs)

/-! ## Splitting -/

/-- What both encoders build. -/
def frame (wasm input : List UInt8) : List UInt8 :=
  tndm ++ (leBytes 4 wasm.length ++ (wasm ++ input))

variable {wasm input : List UInt8}

theorem splitPayload_frame (h : wasm.length < 2 ^ 32) :
    splitPayload (frame wasm input) = (wasm, input) := by
  have hmagic : tndm <+: frame wasm input := List.prefix_append _ _
  have hlength : (frame wasm input).length = 8 + wasm.length + input.length := by
    unfold frame
    simp only [List.length_append, length_leBytes, tndm, List.length_cons, List.length_nil]
    omega
  have hlen : ofLeBytes (slice (frame wasm input) 4 8) = wasm.length := by
    have hfield := slice_middle tndm (leBytes 4 wasm.length) (wasm ++ input)
    rw [length_leBytes] at hfield
    unfold frame
    rw [show slice (tndm ++ (leBytes 4 wasm.length ++ (wasm ++ input))) 4 8 = _ from hfield]
    exact ofLeBytes_leBytes h
  -- the eight bytes in front, as one block
  have hblock : frame wasm input = (tndm ++ leBytes 4 wasm.length) ++ (wasm ++ input) := by
    unfold frame
    rw [List.append_assoc]
  have height : (tndm ++ leBytes 4 wasm.length).length = 8 := by
    simp [tndm]
  have hwasm : slice (frame wasm input) 8 (8 + wasm.length) = wasm := by
    have hmiddle := slice_middle (tndm ++ leBytes 4 wasm.length) wasm input
    rw [height, ← hblock] at hmiddle
    exact hmiddle
  have hinput : (frame wasm input).drop (8 + wasm.length) = input := by
    rw [hblock, ← List.append_assoc]
    apply List.drop_left'
    rw [List.length_append, height]
  unfold splitPayload
  rw [if_pos ⟨hmagic, by omega⟩]
  simp only [hlen]
  rw [if_pos (by omega), hwasm, hinput]

theorem splitPayload_unframed (h : ¬tndm <+: wasm) : splitPayload wasm = (wasm, []) := by
  unfold splitPayload
  rw [if_neg (fun hframe ↦ h hframe.1)]

theorem frame_injective {wasm' input' : List UInt8} (h : wasm.length < 2 ^ 32)
    (h' : wasm'.length < 2 ^ 32) (heq : frame wasm input = frame wasm' input') :
    wasm = wasm' ∧ input = input' := by
  have hsplit : splitPayload (frame wasm input) = (wasm, input) := splitPayload_frame h
  rw [heq, splitPayload_frame h'] at hsplit
  cases hsplit
  exact ⟨rfl, rfl⟩

/-! ## Accepted binaries -/

/-- The size limit of an artifact keeps its length in four bytes. -/
theorem Accepted.length_lt (h : Accepted wasm) : wasm.length < 2 ^ 32 := by
  have hle := h.length_le
  unfold maxArtifactBytes at hle
  omega

/-- `\0asm` is not `TNDM`. -/
theorem Accepted.not_tndm (h : Accepted wasm) : ¬tndm <+: wasm := by
  obtain ⟨kind, hkind⟩ := h.exists_kind
  obtain ⟨-, hmagic, -⟩ := detectKind_ok hkind
  rintro ⟨rest, rfl⟩
  rw [slice_append_left tndm rest (by decide)] at hmagic
  exact absurd hmagic (by decide)

theorem encoder_frame {encode : List UInt8 → List UInt8 → Option (List UInt8)}
    (he : encode ∈ payloadEncoders) (h : wasm.length < 2 ^ 32) :
    encode wasm input = some (frame wasm input) := by
  have hlen : toBytesLittle wasm.length = some (leBytes 4 wasm.length) := if_pos h
  simp only [payloadEncoders, List.mem_cons, List.not_mem_nil, or_false] at he
  rcases he with rfl | rfl
  · simp [submitTask.combinedPayload, hlen, frame]
  · simp [startProject.framedBlob, hlen, frame]

/-- The node's weaker check of the header agrees with the engine's on what the engine accepts. -/
theorem isComponent_of_detectKind {kind : ArtifactKind} (h : detectKind wasm = .ok kind) :
    isComponent wasm = decide (kind = .component) := by
  obtain ⟨hlen, -, hversion⟩ := detectKind_ok h
  cases kind with
  | component => simp [isComponent, hlen, hversion]
  | coreModule => simp [isComponent, hversion, coreModuleVersion, componentVersion]

theorem executeWasm_of_split {payload : List UInt8} {kind : ArtifactKind}
    (hsplit : splitPayload payload = (wasm, input)) (h : detectKind wasm = .ok kind)
    (timeoutMs : Option UInt64) :
    executeWasm payload timeoutMs =
      if kind = .component then .runComponent wasm input (fuelBudget timeoutMs)
      else .runCoreModule wasm input (fuelBudget timeoutMs) := by
  unfold executeWasm
  rw [hsplit]
  dsimp only
  rw [isComponent_of_detectKind h]
  simp only [decide_eq_true_eq]

/-- A payload of either client comes out of the node's split as it went in, the runtime is the one
of the artifact's kind, different tasks have different payloads, and a bare binary is a payload
with an empty input. -/
theorem payload_round_trip (hw : Accepted wasm) :
    (∀ encode ∈ payloadEncoders, ∀ input, ∃ payload, encode wasm input = some payload ∧
      splitPayload payload = (wasm, input) ∧
      ∀ timeoutMs,
        (executeWasm payload timeoutMs = .runComponent wasm input (fuelBudget timeoutMs) ↔
          detectKind wasm = .ok .component) ∧
        (executeWasm payload timeoutMs = .runCoreModule wasm input (fuelBudget timeoutMs) ↔
          detectKind wasm = .ok .coreModule)) ∧
    (∀ encode ∈ payloadEncoders, ∀ encode' ∈ payloadEncoders, ∀ wasm' input input',
      Accepted wasm' → (wasm, input) ≠ (wasm', input') →
        encode wasm input ≠ encode' wasm' input') ∧
    splitPayload wasm = (wasm, []) := by
  refine ⟨?_, ?_, splitPayload_unframed hw.not_tndm⟩
  · intro encode hencode input
    refine ⟨frame wasm input, encoder_frame hencode hw.length_lt,
      splitPayload_frame hw.length_lt, fun timeoutMs ↦ ?_⟩
    obtain ⟨kind, hkind⟩ := hw.exists_kind
    have hsplit : splitPayload (frame wasm input) = (wasm, input) :=
      splitPayload_frame hw.length_lt
    have hrun := executeWasm_of_split hsplit hkind timeoutMs
    rw [hrun, hkind]
    cases kind <;> simp
  · intro encode hencode encode' hencode' wasm' input input' hw' hne heq
    rw [encoder_frame hencode hw.length_lt, encoder_frame hencode' hw'.length_lt] at heq
    obtain ⟨hwasm, hinput⟩ := frame_injective hw.length_lt hw'.length_lt (Option.some.inj heq)
    exact hne (Prod.ext hwasm hinput)

/-- The smallest component. -/
theorem payload_round_trip_component :
    ∃ payload, submitTask.combinedPayload (wasmMagic ++ componentVersion) [0x5b, 0x5d] =
      some payload ∧ splitPayload payload = (wasmMagic ++ componentVersion, [0x5b, 0x5d]) ∧
      executeWasm payload none =
        .runComponent (wasmMagic ++ componentVersion) [0x5b, 0x5d] defaultFuel := by
  have haccepted : Accepted (wasmMagic ++ componentVersion) := ⟨.component, by decide⟩
  obtain ⟨payload, hencode, hsplit, hrun⟩ := (payload_round_trip haccepted).1
    submitTask.combinedPayload (by simp [payloadEncoders]) [0x5b, 0x5d]
  exact ⟨payload, hencode, hsplit, (hrun none).1.mpr (by decide)⟩

end TandemAio
