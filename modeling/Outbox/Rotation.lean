import Outbox.Endpoint

/-! # Rotation

Takes the endpoints in turn, the first one first. The cursor is a machine word and counts the
turns; without endpoints it does not move. -/
namespace Outbox
set_option autoImplicit false

structure Rotation where
  endpoints : List Endpoint
  cursor : UInt64 := 0
  deriving DecidableEq, Repr

namespace Rotation

def ofList (es : List Endpoint) : Rotation := ⟨es, 0⟩

def size (r : Rotation) : Nat := r.endpoints.length

def isEmpty (r : Rotation) : Bool := r.endpoints.isEmpty

/-- The endpoint whose turn it is. -/
def current? (r : Rotation) : Option Endpoint := r.endpoints[r.cursor.toNat % r.endpoints.length]?

def next (r : Rotation) : Option Endpoint × Rotation :=
  if r.isEmpty then (none, r) else (r.current?, { r with cursor := r.cursor + 1 })

/-- The endpoints of the next `n` turns. -/
def turns : Nat → Rotation → List (Option Endpoint)
  | 0, _ => []
  | n + 1, r => r.next.1 :: turns n r.next.2

theorem endpoints_next (r : Rotation) : r.next.2.endpoints = r.endpoints := by
  unfold next
  split <;> rfl

end Rotation

end Outbox
