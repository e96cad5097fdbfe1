import Outbox.MessageUri

/-! # Messages in flight

The ids of the messages that are being sent. The first to claim an id owns it until it is
released; a later claim is a duplicate, unless it may be sent again beside the first, and then it
owns nothing. -/
namespace Outbox
set_option autoImplicit false

inductive Claim where
  /-- The id is the claimant's, who has to release it. -/
  | claimed
  /-- The id is another's, but the claimant may go on; it has nothing to release. -/
  | override
  /-- The id is another's. -/
  | duplicate
  deriving DecidableEq, Repr

structure InFlight where
  ids : List MessageId := []
  deriving DecidableEq, Repr

namespace InFlight

def claim (s : InFlight) (id : MessageId) (mayResend : Bool) : Claim × InFlight :=
  if id ∈ s.ids then (if mayResend then .override else .duplicate, s)
  else (.claimed, ⟨id :: s.ids⟩)

/-- Answers whether the id was in flight. -/
def release (s : InFlight) (id : MessageId) : Bool × InFlight :=
  (decide (id ∈ s.ids), ⟨s.ids.erase id⟩)

theorem claim_eq_claimed_iff (s : InFlight) (id : MessageId) (b : Bool) :
    (s.claim id b).1 = .claimed ↔ id ∉ s.ids := by
  unfold claim
  split
  · cases b <;> simp_all
  · simp_all

end InFlight

end Outbox
