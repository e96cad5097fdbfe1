import Outbox.Request

/-! # What listeners are told

A run tells its listeners that it starts, what it reports while it works, and how it ends. A
listener that is told of a failure answers with its vote on a retry; the vote of the other notices
does not count. -/
namespace Outbox
set_option autoImplicit false

/-- Listeners are told apart by name. -/
abbrev ListenerName := String

inductive Progress where
  | upload (bytes : UInt64)
  | download (bytes : UInt64)
  deriving DecidableEq, Repr

inductive Notice where
  | starting
  | progress (p : Progress)
  | done (tx : TransactionId)
  | error (f : Failure)
  deriving DecidableEq, Repr

end Outbox
