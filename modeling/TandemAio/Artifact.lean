import TandemAio.Reasoning.Bytes
import TandemAio.Zkp

/-!
# `sdk/core` of the SDK: `artifact.rs`, `compile.rs` and `validate.rs`

The compile contract and the check of a finished WASM binary by its header.
-/

open Reasoning

namespace TandemAio

/-- Which flavor of WASM binary a backend produced. -/
inductive ArtifactKind
  | component
  | coreModule
deriving DecidableEq

/-- A finished piece of compiled work. -/
structure Artifact where
  bytes : List UInt8
  kind : ArtifactKind
  contentHash : String
deriving DecidableEq

def hashBytes [Sha256] (bytes : List UInt8) : String := Sha256.hexdigest bytes

def Artifact.new [Sha256] (bytes : List UInt8) (kind : ArtifactKind) : Artifact where
  bytes := bytes
  kind := kind
  contentHash := hashBytes bytes

inductive CompileError
  | emptySource
  | backendUnavailable (message : String)
  | backendFailed (message : String)
  | invalidArtifact (message : String)
  | io (message : String)
deriving DecidableEq

/-- 256 MiB. -/
def maxArtifactBytes : Nat := 256 * 1024 * 1024

/-! ## `validate.rs` -/

/-- `\0asm` -/
def wasmMagic : List UInt8 := [0x00, 0x61, 0x73, 0x6d]

/-- Version 1. -/
def coreModuleVersion : List UInt8 := [0x01, 0x00, 0x00, 0x00]

/-- Version 0x0d with layer 1. -/
def componentVersion : List UInt8 := [0x0d, 0x00, 0x01, 0x00]

def detectKind (bytes : List UInt8) : Except CompileError ArtifactKind :=
  if bytes.length < 8 then
    .error (.invalidArtifact "wasm binary is too short to have a header")
  else if slice bytes 0 4 ≠ wasmMagic then
    .error (.invalidArtifact "bytes do not start with the wasm magic number")
  else if slice bytes 4 8 = coreModuleVersion then
    .ok .coreModule
  else if slice bytes 4 8 = componentVersion then
    .ok .component
  else
    .error (.invalidArtifact
      ("unrecognized wasm version bytes: " ++ toString (slice bytes 4 8)))

def validateArtifact (bytes : List UInt8) (maxSizeBytes : Nat) :
    Except CompileError ArtifactKind :=
  if maxSizeBytes < bytes.length then
    .error (.invalidArtifact ("artifact is " ++ toString bytes.length ++
      " bytes, larger than the " ++ toString maxSizeBytes ++ " byte limit"))
  else
    detectKind bytes

/-- What every backend returns its bytes through. -/
def finalizeArtifact [Sha256] (bytes : List UInt8) : Except CompileError Artifact :=
  match validateArtifact bytes maxArtifactBytes with
  | .error error => .error error
  | .ok kind => .ok (.new bytes kind)

/-- Bytes that the compile engine ships. -/
def Accepted (wasm : List UInt8) : Prop := ∃ kind, validateArtifact wasm maxArtifactBytes = .ok kind

/-! ## What an accepted binary looks like -/

variable {wasm : List UInt8} {kind : ArtifactKind}

theorem detectKind_ok (h : detectKind wasm = .ok kind) :
    8 ≤ wasm.length ∧ slice wasm 0 4 = wasmMagic ∧
      slice wasm 4 8 = match kind with
        | .component => componentVersion
        | .coreModule => coreModuleVersion := by
  unfold detectKind at h
  split at h
  · cases h
  · rename_i hlen
    split at h
    · cases h
    · rename_i hmagic
      refine ⟨by omega, not_not.mp hmagic, ?_⟩
      split at h
      · cases h
        assumption
      · split at h
        · cases h
          assumption
        · cases h

/-- A header that is kept says what the whole file is. -/
theorem detectKind_take {kept : Nat} (h : 8 ≤ kept) :
    detectKind (wasm.take kept) = detectKind wasm := by
  have hlen : (wasm.take kept).length < 8 ↔ wasm.length < 8 := by
    rw [List.length_take]
    omega
  have hslice : ∀ lo hi, hi ≤ 8 → slice (wasm.take kept) lo hi = slice wasm lo hi := by
    intro lo hi hhi
    unfold slice
    rw [List.take_take, Nat.min_eq_left (by omega)]
  unfold detectKind
  simp only [hlen, hslice 0 4 (by decide), hslice 4 8 (by decide)]

/-- The size limit is the only check that is not in the header. -/
theorem validateArtifact_ok {maxSizeBytes : Nat} :
    validateArtifact wasm maxSizeBytes = .ok kind ↔
      wasm.length ≤ maxSizeBytes ∧ detectKind wasm = .ok kind := by
  unfold validateArtifact
  split
  · have hlong : ¬wasm.length ≤ maxSizeBytes := by omega
    simp [hlong]
  · have hfits : wasm.length ≤ maxSizeBytes := by omega
    simp [hfits]

theorem finalizeArtifact_ok [Sha256] {artifact : Artifact} :
    finalizeArtifact wasm = .ok artifact ↔
      validateArtifact wasm maxArtifactBytes = .ok artifact.kind ∧
        artifact = .new wasm artifact.kind := by
  unfold finalizeArtifact
  constructor
  · intro h
    split at h
    · cases h
    · rename_i kind hkind
      cases h
      exact ⟨hkind, rfl⟩
  · rintro ⟨hvalid, hnew⟩
    rw [hvalid]
    exact congrArg Except.ok hnew.symm

theorem Accepted.length_le (h : Accepted wasm) : wasm.length ≤ maxArtifactBytes := by
  obtain ⟨kind, hvalid⟩ := h
  exact (validateArtifact_ok.mp hvalid).1

theorem Accepted.exists_kind (h : Accepted wasm) : ∃ kind, detectKind wasm = .ok kind := by
  obtain ⟨kind, hvalid⟩ := h
  exact ⟨kind, (validateArtifact_ok.mp hvalid).2⟩

end TandemAio
