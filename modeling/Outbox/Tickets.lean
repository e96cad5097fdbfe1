import Outbox.Handle

/-! # Tickets of the live executors

Every executor gets a ticket when it is launched and gives it back when it exits. Tickets count
from one and are never used twice. -/
namespace Outbox
set_option autoImplicit false

/-- A ticket is a word of 64 bits for the first 2^64 - 1 executors. -/
structure Tickets where
  last : Nat := 0
  live : List (Nat × Handle) := []
  deriving DecidableEq, Repr

namespace Tickets

def insert (t : Tickets) (h : Handle) : Nat × Tickets :=
  (t.last + 1, ⟨t.last + 1, t.live ++ [(t.last + 1, h)]⟩)

/-- Answers whether the ticket was live. -/
def remove (t : Tickets) (ticket : Nat) : Bool × Tickets :=
  (t.live.any (·.1 == ticket), { t with live := t.live.filter (·.1 != ticket) })

/-- Hands out all live handles in the order of their tickets and forgets them. -/
def drain (t : Tickets) : List Handle × Tickets :=
  (t.live.map (·.2), { t with live := [] })

def size (t : Tickets) : Nat := t.live.length

end Tickets

end Outbox
