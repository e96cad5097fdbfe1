import Outbox.MessageUri

/-! # The store of messages

The uris of the messages that still exist. Uris are compared as texts: two spellings of one id are
two messages here. -/
namespace Outbox
set_option autoImplicit false

structure Store where
  uris : List MessageUri := []
  deriving DecidableEq, Repr

namespace Store

def contains (s : Store) (u : MessageUri) : Bool := decide (u ∈ s.uris)

def insert (s : Store) (u : MessageUri) : Bool × Store :=
  if u ∈ s.uris then (false, s) else (true, ⟨u :: s.uris⟩)

def remove (s : Store) (u : MessageUri) : Bool × Store :=
  (decide (u ∈ s.uris), ⟨s.uris.erase u⟩)

def size (s : Store) : Nat := s.uris.length

def isEmpty (s : Store) : Bool := s.uris.isEmpty

theorem mem_insert (s : Store) (u v : MessageUri) :
    v ∈ (s.insert u).2.uris ↔ v = u ∨ v ∈ s.uris := by
  unfold insert
  split
  · rename_i hu
    refine ⟨.inr, ?_⟩
    rintro (rfl | hv)
    · exact hu
    · exact hv
  · exact List.mem_cons

end Store

end Outbox
