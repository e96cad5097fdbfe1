import Outbox.Job.Basic

/-! # Payload jobs

Everything that is not the sending of a message: a kind and a payload, handed over as they are.
Nothing cancels a payload job, and two of them are never the same. -/
namespace Outbox
set_option autoImplicit false

structure PayloadJob where
  id : JobId
  kind : String
  payload : Json.Value
  isAsync : Bool := false
  listener : Option ListenerName := none

namespace PayloadJob

def request (j : PayloadJob) : Request := ⟨j.id, j.kind, j.payload⟩

def plan (j : PayloadJob) : Plan := .sendLast j.request

def toJob (j : PayloadJob) : Job :=
  { id := j.id, isAsync := j.isAsync, listener := j.listener, plan := j.plan }

end PayloadJob

end Outbox
