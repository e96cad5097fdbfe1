/-! # Durations and the clock

An instant counts nanoseconds from the start of the clock and stays below `Instant.limit`; a
duration counts nanoseconds too and may be longer than any instant. `Instant.after` is the instant
at which a delay ends: a delay that the clock cannot count ends ten years from now. Main statement:
`after_lt_limit`, with that much time left on the clock the answer is on it. -/
namespace Outbox
set_option autoImplicit false

def nanosPerSecond : Nat := 1000000000

def nanosPerMilli : Nat := 1000000

structure Duration where
  nanos : Nat
  nanos_lt : nanos < UInt64.size * nanosPerSecond
  deriving DecidableEq, Repr

namespace Duration

def zero : Duration := ⟨0, by decide⟩

def longest : Duration := ⟨UInt64.size * nanosPerSecond - 1, by decide⟩

def ofMillis (ms : UInt64) : Duration where
  nanos := ms.toNat * nanosPerMilli
  nanos_lt := by
    have h := ms.toNat_lt_size
    unfold nanosPerMilli nanosPerSecond
    omega

/-- Whole milliseconds, the rest cut off. -/
def millis (d : Duration) : Nat := d.nanos / nanosPerMilli

@[simp] theorem millis_ofMillis (ms : UInt64) : (ofMillis ms).millis = ms.toNat :=
  Nat.mul_div_cancel _ (by decide)

/-- Ten years, longer than any worker lives. -/
def farFuture : Duration := ⟨10 * 365 * 24 * 3600 * nanosPerSecond, by decide⟩

end Duration

abbrev Instant := Nat

namespace Instant

def limit : Nat := UInt64.size / 2 * nanosPerSecond

/-- The sum if the clock can count it. -/
def plus? (now : Instant) (d : Duration) : Option Instant :=
  if now + d.nanos < limit then some (now + d.nanos) else none

def after (now : Instant) (d : Duration) : Instant :=
  (plus? now d).getD (now + Duration.farFuture.nanos)

theorem after_eq_add {now : Instant} {d : Duration} (h : now + d.nanos < limit) :
    after now d = now + d.nanos := by
  simp [after, plus?, h]

theorem after_lt_limit {now : Instant} (h : now + Duration.farFuture.nanos < limit)
    (d : Duration) : after now d < limit := by
  unfold after plus?
  split
  · simpa
  · simpa using h

/-- No delay ends early, but for the ones that the clock cannot count. -/
theorem le_after (now : Instant) (d : Duration) :
    now + min d.nanos Duration.farFuture.nanos ≤ after now d := by
  unfold after plus?
  split
  · exact Nat.add_le_add_left (Nat.min_le_left _ _) _
  · exact Nat.add_le_add_left (Nat.min_le_right _ _) _

end Instant

end Outbox
