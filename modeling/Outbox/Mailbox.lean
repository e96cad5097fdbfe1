import Outbox.Clock

/-! # Mailboxes

Where letters wait for the loop, in the order in which they were posted. A letter carries the
instant from which on its message may be handled. A closed mailbox takes no more letters. -/
namespace Outbox
set_option autoImplicit false

structure Letter (α : Type) where
  due : Instant
  message : α
  deriving DecidableEq, Repr

structure Mailbox (α : Type) where
  letters : List (Letter α) := []
  closed : Bool := false
  deriving DecidableEq, Repr

namespace Mailbox
variable {α : Type}

/-- Answers whether the letter was taken. -/
def post (m : Mailbox α) (now : Instant) (message : α) (delay : Duration) : Bool × Mailbox α :=
  if m.closed then (false, m)
  else (true, { m with letters := m.letters ++ [⟨Instant.after now delay, message⟩] })

def receive (m : Mailbox α) : Option (Letter α) × Mailbox α :=
  match m.letters with
  | [] => (none, m)
  | l :: r => (some l, { m with letters := r })

/-- The letters that were still waiting are lost. -/
def close (_ : Mailbox α) : Mailbox α := ⟨[], true⟩

end Mailbox

end Outbox
