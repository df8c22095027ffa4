import Mathlib
import TandemAio.TaskQueue

/-!
# `app/utils/zkp.py` and `app/utils/quota.py`

Execution receipts, as a node submits them and the server verifies them, and the charge for an
accepted one.
-/

open Reasoning

namespace TandemAio

/-- `sha256(..).hexdigest()`, of `hashlib` on the server and of `sha2` on the node. -/
class Sha256 where
  hexdigest : List UInt8 → String
  hex : ∀ data, (hexdigest data).toList.all (fun c ↦ c.isDigit || ('a' ≤ c && c ≤ 'f')) = true

/-- A value of a decoded JSON document.  A float is kept by its `repr` and a list or an object by
its `str`: nothing the server does with a receipt looks inside them. -/
inductive Json
  | null
  | bool (b : Bool)
  | int (i : Int)
  | float (repr : String)
  | str (s : String)
  | container (text : String) (empty : Bool)
deriving DecidableEq

namespace Json

/-- `str(value)`, as an f-string writes it. -/
def text : Json → String
  | .null => "None"
  | .bool true => "True"
  | .bool false => "False"
  | .int i => toString i
  | .float repr => repr
  | .str s => s
  | .container text _ => text

/-- `bool(value)`. -/
def truthy : Json → Bool
  | .null => false
  | .bool b => b
  | .int i => i ≠ 0
  | .float repr => repr ≠ "0.0" && repr ≠ "-0.0"
  | .str s => s ≠ ""
  | .container _ empty => !empty

end Json

/-- The `signature` of a receipt, by what `base64.b64decode` makes of it. -/
inductive SignatureField
  | undecodable
  | decoded (signature : Signature)
deriving DecidableEq

/-- The fields `verify_receipt` reads from a receipt object; `none` is a missing field. -/
structure Receipt where
  tid : Option Json
  instructionCount : Option Json
  memoryHash : Option Json
  outputHash : Option Json
  signature : SignatureField
deriving DecidableEq

/-- The `X-Execution-Receipt` header, by what base64 and JSON decoding make of it. -/
inductive ReceiptHeader
  | missing
  | undecodable
  /-- A JSON document that is no object: reading a field of it raises. -/
  | noObject
  | object (receipt : Receipt)
deriving DecidableEq

namespace Receipt

/-- `receipt.get("tid", "")`. -/
def tidField (r : Receipt) : Json := r.tid.getD (.str "")

/-- `receipt.get("instruction_count", 0)`. -/
def countField (r : Receipt) : Json := r.instructionCount.getD (.int 0)

/-- `receipt.get("memory_hash", "")`. -/
def memoryField (r : Receipt) : Json := r.memoryHash.getD (.str "")

/-- `(receipt.get("output_hash") or "").strip()`; `none` when that raises. -/
def outputField (r : Receipt) : Option String :=
  match r.outputHash with
  | none => some ""
  | some value =>
    if value.truthy then
      match value with
      | .str s => some (strStrip s)
      | _ => none
    else some ""

end Receipt

/-- `build_receipt_message`. -/
def buildReceiptMessage (tid instructionCount memoryHash outputHash : String) : String :=
  tid ++ "|" ++ instructionCount ++ "|" ++ memoryHash ++ "|" ++ outputHash

/-- The message a receipt claims to be signed over. -/
def Receipt.message (r : Receipt) (outputHash : String) : String :=
  buildReceiptMessage r.tidField.text r.countField.text r.memoryField.text outputHash

/-- What `verify_receipt` returns, or that it raises. -/
inductive Verdict
  | verified
  | rejected (reason : String)
  | raised
deriving DecidableEq

/-- `verify_receipt`, for the public key row it finds. -/
def receiptVerdict [Sha256] (key : Option PublicKey) (receipt : Receipt)
    (resultBytes : List UInt8) (nodeId : NodeId) : Verdict :=
  match key with
  | none => .rejected ("No registered public key for node " ++ nodeId.text)
  | some key =>
    let expected := Sha256.hexdigest resultBytes
    match receipt.outputField with
    | none => .raised
    | some outputHash =>
      if outputHash ≠ expected then
        .rejected
          ("output_hash mismatch: receipt says " ++ outputHash ++ ", actual is " ++ expected)
      else
        match receipt.signature with
        | .undecodable => .rejected "Could not base64-decode the signature"
        | .decoded signature =>
          match key with
          | .other verifyError => .rejected ("Signature verification error: " ++ verifyError)
          | .rsa _ =>
            if key.verify signature (receipt.message outputHash) then .verified
            else .rejected "RSA-PSS signature verification failed"

/-- `BAD_RECEIPT_THRESHOLD`. -/
def badReceiptThreshold : Nat := 5

/-! ## `record_usage` -/

/-- Redis takes an increment as the decimal text of a signed 64-bit integer. -/
def parseInt64 (s : String) : Option Int :=
  match s.toInt? with
  | some i => if toString i = s ∧ -2 ^ 63 ≤ i ∧ i < 2 ^ 63 then some i else none
  | none => none

/-- The increment `INCRBY` gets from a receipt's count; `none` when the client or Redis refuses
the value. -/
def incrbyAmount : Json → Option Int
  | .int i => if -2 ^ 63 ≤ i ∧ i < 2 ^ 63 then some i else none
  | .str s => parseInt64 s
  | _ => none

/-- The amount `record_usage` adds to a counter, unless it raises. -/
def usageAmount (used : Option Int) (count : Json) : Option Int :=
  match incrbyAmount count with
  | some amount =>
    if -2 ^ 63 ≤ used.getD 0 + amount ∧ used.getD 0 + amount < 2 ^ 63 then some amount else none
  | none => none

/-- `record_usage`; `false` when it raises. -/
def recordUsage (apiKey : ApiKey) (instructionCount : Json) : Server Bool := do
  let amount ← Server.read (fun s ↦ usageAmount (s.instructionsUsed apiKey) instructionCount)
    fun _ ↦ []
  match amount with
  | none => return false
  | some amount =>
    Server.write (·.charge apiKey amount) []
    return true

end TandemAio
