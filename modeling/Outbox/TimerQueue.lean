import Outbox.Clock

/-! # The timer queue

Entries in the order of their due times; entries due at the same instant keep the order in which
they came. An entry's key is its due time and its number, and numbers are never used twice. -/
namespace Outbox
set_option autoImplicit false

/-- A number is a word of 64 bits for the first 2^64 - 1 entries. -/
structure TimerQueue.Entry (α : Type) where
  due : Instant
  number : Nat
  item : α
  deriving DecidableEq, Repr

structure TimerQueue (α : Type) where
  entries : List (TimerQueue.Entry α) := []
  last : Nat := 0
  deriving DecidableEq, Repr

namespace TimerQueue
variable {α : Type}

def Entry.before (e f : Entry α) : Bool :=
  e.due < f.due || (e.due == f.due && e.number < f.number)

def Entry.sameKey (e f : Entry α) : Bool := e.due == f.due && e.number == f.number

/-- An entry takes the place of one with its key. -/
def place (e : Entry α) : List (Entry α) → List (Entry α)
  | [] => [e]
  | f :: r =>
    if e.before f then e :: f :: r
    else if e.sameKey f then e :: r
    else f :: place e r

def insert (q : TimerQueue α) (due : Instant) (item : α) : TimerQueue α :=
  ⟨place ⟨due, q.last + 1, item⟩ q.entries, q.last + 1⟩

/-- The first entry, if it is due. -/
def popDue (q : TimerQueue α) (now : Instant) : Option (Entry α) × TimerQueue α :=
  match q.entries with
  | [] => (none, q)
  | e :: r => if e.due ≤ now then (some e, { q with entries := r }) else (none, q)

def nextDue? (q : TimerQueue α) : Option Instant := q.entries.head?.map (·.due)

/-- Removes the items that satisfy `p` and answers how many there were. -/
def removeAll (q : TimerQueue α) (p : α → Bool) : Nat × TimerQueue α :=
  (q.entries.countP (p ·.item), { q with entries := q.entries.filter fun e => !p e.item })

def size (q : TimerQueue α) : Nat := q.entries.length

def clear (q : TimerQueue α) : TimerQueue α := { q with entries := [] }

end TimerQueue

end Outbox
