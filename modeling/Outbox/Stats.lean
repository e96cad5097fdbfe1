import Outbox.Clock
import Outbox.Json.Tree

/-! # Statistics of a worker

Counters that only grow. Every job that the loop hands out is counted once: as dropped, for one of
four reasons, or as dispatched, or not at all when its message cannot be identified; what became of
a dispatched job is counted again. -/
namespace Outbox
set_option autoImplicit false

/-- Why a job was discarded without running. -/
inductive DropReason where
  | interrupted
  | disconnected
  | canceled
  | duplicate
  deriving DecidableEq, Repr

/-- Each counter grows by one in a step, so a word of 64 bits holds it for the first 2^64 - 1
steps. -/
structure Stats where
  dispatched : Nat := 0
  succeeded : Nat := 0
  failed : Nat := 0
  requeued : Nat := 0
  droppedInterrupted : Nat := 0
  droppedDisconnected : Nat := 0
  droppedCanceled : Nat := 0
  droppedDuplicate : Nat := 0
  /-- Live executors at the time of the snapshot. -/
  asyncRunning : Nat := 0
  /-- When the loop was ready. -/
  startedAt : Option Instant := none
  deriving DecidableEq, Repr

namespace Stats

def recordDrop (s : Stats) : DropReason → Stats
  | .interrupted => { s with droppedInterrupted := s.droppedInterrupted + 1 }
  | .disconnected => { s with droppedDisconnected := s.droppedDisconnected + 1 }
  | .canceled => { s with droppedCanceled := s.droppedCanceled + 1 }
  | .duplicate => { s with droppedDuplicate := s.droppedDuplicate + 1 }

def dropped (s : Stats) : DropReason → Nat
  | .interrupted => s.droppedInterrupted
  | .disconnected => s.droppedDisconnected
  | .canceled => s.droppedCanceled
  | .duplicate => s.droppedDuplicate

def droppedTotal (s : Stats) : Nat :=
  s.droppedInterrupted + s.droppedDisconnected + s.droppedCanceled + s.droppedDuplicate

theorem droppedTotal_recordDrop (s : Stats) (r : DropReason) :
    (s.recordDrop r).droppedTotal = s.droppedTotal + 1 := by
  cases r <;> simp only [recordDrop, droppedTotal] <;> omega

theorem dropped_recordDrop (s : Stats) (r q : DropReason) :
    (s.recordDrop r).dropped q = s.dropped q + if q = r then 1 else 0 := by
  cases r <;> cases q <;> rfl

/-- The members in a fixed order; `timeText` writes the instant of the start. -/
def toJson (timeText : Instant → String) (s : Stats) : Json.Value :=
  .object [
    ("jobs_dispatched", .number s.dispatched),
    ("jobs_succeeded", .number s.succeeded),
    ("jobs_failed", .number s.failed),
    ("jobs_requeued", .number s.requeued),
    ("dropped_interrupted", .number s.droppedInterrupted),
    ("dropped_disconnected", .number s.droppedDisconnected),
    ("dropped_canceled", .number s.droppedCanceled),
    ("dropped_duplicate", .number s.droppedDuplicate),
    ("async_running", .number s.asyncRunning),
    ("started_at", match s.startedAt with
      | some t => .text (timeText t)
      | none => .null)]

end Stats

end Outbox
