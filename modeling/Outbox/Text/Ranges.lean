/-! # Sets of numbers as ranges

A list of ranges, both ends included, in increasing order and apart from each other. The search
stops at the first range that ends at the number or above it, since no later one could hold it. -/
namespace Outbox.Text
set_option autoImplicit false

def covers : List (Nat × Nat) → Nat → Bool
  | [], _ => false
  | (a, b) :: rest, n => if n ≤ b then a ≤ n else covers rest n

end Outbox.Text
