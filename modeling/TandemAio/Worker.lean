import TandemAio.Nodes

/-!
# `src/worker.rs` and `src/crypto.rs` of the node

What a worker makes of a task payload, and the receipt it signs for a task it has run.
-/

namespace TandemAio

/-- The registration that `register_node` sends, with the public key of a new key pair. -/
def workerRegisterNode (pair : Nat) (nodeId : NodeId) (nodeToken : Token) (bearer : Option Token) :
    Register where
  nodeId := nodeId
  nodeToken := nodeToken
  bearer := bearer
  supportsWasm := true
  pem := .key (.rsa pair)

/-- The text of a runtime in a task hash and in the answer to a claim. -/
def Runtime.text : Runtime → String
  | .cloudpickle => "cloudpickle"
  | .wasm => "wasm"

/-- The failure that the runtime check of `task_loop` reports; `none` for a task it goes on with. -/
def unsupportedRuntime (runtime : String) : Option String :=
  if runtime ≠ "wasm" then some ("unsupported runtime: " ++ runtime) else none

/-- `decrypt_dek`, with the private key of a key pair. -/
def decryptDek (pair : Nat) (encryptedDek : WrappedDek) : Option Nat :=
  if encryptedDek.pair = pair then some encryptedDek.dek else none

/-- `decrypt_blob`. -/
def decryptBlob (dek iv : Nat) : Blob → Option Blob
  | .bytes _ => none
  | .aesGcm dek' iv' plain => if dek' = dek ∧ iv' = iv then some plain else none

/-- The decrypt step of `task_loop`; `none` is a decryption error. -/
def wasmBytes (pair : Nat) (rawBytes : Blob) : Option DekHeaders → Option Blob
  | some headers => do
    let dek ← decryptDek pair headers.encryptedDek
    decryptBlob dek headers.iv rawBytes
  -- no headers: the bytes are taken to be unencrypted
  | none => some rawBytes

/-- What the worker makes of the answer to its download. -/
def Response.plaintext (pair : Nat) : Response → Option Blob
  | .blob data _ _ headers => wasmBytes pair data headers
  | _ => none

/-- Ciphertext is not its own plaintext. -/
theorem aesGcm_ne (dek iv : Nat) (plain : Blob) : Blob.aesGcm dek iv plain ≠ plain := by
  intro h
  have hsize := congrArg sizeOf h
  simp only [Blob.aesGcm.sizeOf_spec] at hsize
  omega

/-- What `execute_wasm` returns.  The memory hash is a digest. -/
structure ExecutionResult [Sha256] where
  output : List UInt8
  instructionCount : UInt64
  memoryHash : String
  hashed : ∃ memory, memoryHash = Sha256.hexdigest memory

/-- The message `report_success` signs. -/
def canonical [Sha256] (tid : Tid) (result : ExecutionResult) : String :=
  tid.text ++ "|" ++ toString result.instructionCount ++ "|" ++ result.memoryHash ++ "|" ++
    Sha256.hexdigest result.output

/-- The receipt `report_success` sends with the output. -/
def reportSuccess [Sha256] (pair : Nat) (tid : Tid) (result : ExecutionResult) : Receipt where
  tid := some (.str tid.text)
  instructionCount := some (.int result.instructionCount.toNat)
  memoryHash := some (.str result.memoryHash)
  outputHash := some (.str (Sha256.hexdigest result.output))
  signature := .decoded (.pss pair (canonical tid result))

end TandemAio
