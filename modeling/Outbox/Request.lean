import Outbox.JobId
import Outbox.Json.Tree
import Outbox.MessageUri

/-! # Requests

What a job hands to the connection: its id, a kind and a payload. A payload is read with at most
`Request.payloadDepth` containers inside each other, which leaves one for the request itself. -/
namespace Outbox
set_option autoImplicit false

/-- What the server calls a request that it has carried out. -/
structure TransactionId where
  text : String
  deriving DecidableEq, Repr

/-- How an execution ends. -/
abbrev Outcome := Except Failure TransactionId

structure Request where
  jobId : JobId
  kind : String
  payload : Json.Value

namespace Request

def payloadDepth : Nat := 126

end Request

open Json

instance : Wire JobId where
  toJson id := .text id.text
  ofTree? t := do JobId.ofChars? (← t.text?).toList

instance : Wire MessageId where
  toJson id := .number id.number.toNat
  ofTree? t := do return ⟨UInt64.ofNat (← t.natural? UInt64.size)⟩

instance : Wire MessageUri where
  toJson u := .text u.text
  ofTree? t := do return ⟨← t.text?⟩

instance : Wire TransactionId where
  toJson tx := .text tx.text
  ofTree? t := do return ⟨← t.text?⟩

instance : Wire Request where
  toJson r := .object [("job_id", Wire.toJson r.jobId), ("kind", .text r.kind), ("payload", r.payload)]
  ofTree? t := do
    match ← t.record? ["job_id", "kind", "payload"] with
    | [id, kind, payload] =>
      return ⟨← Wire.ofTree? id, ← kind.text?, ← payload.toValue? Request.payloadDepth⟩
    | _ => none

end Outbox
