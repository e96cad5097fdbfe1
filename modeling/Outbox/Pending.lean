/-! # The pending queue

Jobs that were pushed before a loop was there to take them, in the order in which they came. The
next loop to prepare takes all of them. -/
namespace Outbox
set_option autoImplicit false

structure Pending (α : Type) where
  jobs : List α := []
  deriving DecidableEq, Repr

namespace Pending
variable {α : Type}

def push (p : Pending α) (a : α) : Pending α := ⟨p.jobs ++ [a]⟩

def drain (p : Pending α) : List α × Pending α := (p.jobs, {})

def size (p : Pending α) : Nat := p.jobs.length

def isEmpty (p : Pending α) : Bool := p.jobs.isEmpty

end Pending

end Outbox
