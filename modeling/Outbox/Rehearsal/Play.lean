import Outbox.Describe
import Outbox.Rehearsal.World

/-! # Playing a rehearsal

After each direction everything that can happen without time passing happens. Time passes only
where a direction waits: until jobs that it names have come to rest, or until the idle timer fires.
What is seen after a direction is the new part of the records and of the worker's journal, and the
state that callers can ask for. -/
namespace Outbox.Rehearsal
set_option autoImplicit false

namespace World

/-- More steps than any script takes between two directions; a loop that never comes to rest is left
after so many. -/
def patience : Nat := 100000

def come (w : World) : World := w.settle patience

/-- Delays from this one on never end while a rehearsal lasts. -/
def never : Nat := 3600 * nanosPerSecond

/-- How long a direction waits for the idle timer. -/
def idlePatience : Nat := 150 * nanosPerMilli

def moveTo (w : World) (t : Instant) : World :=
  { w with worker := { w.worker with now := max w.worker.now t } }

/-- A request of the job is still queued. -/
def isQueued (w : World) (label : String) : Bool :=
  let isOf : Message → Bool
    | .request j => w.cast.labelOf j.id == label
    | _ => false
  w.worker.loop.queue.entries.any (isOf ·.item) ||
    w.worker.loop.mailbox.letters.any (isOf ·.message)

/-- Moves the clock from one due time to the next until the jobs have come to rest. -/
def awaitJobs (labels : List String) : Nat → World → World
  | 0, w => w
  | fuel + 1, w =>
    if labels.any w.isQueued then
      match w.worker.loop.queue.nextDue? with
      | some due =>
        if w.worker.now < due && due < w.worker.now + never then
          awaitJobs labels fuel (w.moveTo due).come
        else w
      | none => w
    else w

def fullyIdleCount (w : World) : Nat :=
  w.worker.journal.countP fun e => match e.event with
    | .signal .fullyIdle => true
    | _ => false

/-- Moves the clock from one due time to the next until the idle timer has fired with push delivery
registered; the answer is whether it has before the deadline. -/
def awaitIdle (before : Nat) (deadline : Instant) : Nat → World → Bool × World
  | 0, w => (false, w)
  | fuel + 1, w =>
    if before < w.fullyIdleCount then (true, w)
    else match w.worker.loop.queue.nextDue? with
      | some due =>
        if w.worker.now < due && due ≤ deadline then
          awaitIdle before deadline fuel (w.moveTo due).come
        else (false, w)
      | none => (false, w)

/-- The thread of the job that has been parked longest goes on. -/
def openJob (w : World) (label : String) : Bool × World :=
  let isOf (id : Nat) : Bool :=
    w.worker.runs.any fun r => r.id == id && w.runLabel r == label
  match w.parked.find? isOf with
  | some id => (true, { w with parked := w.parked.erase id })
  | none => (false, w)

def drop (w : World) : Bool × World :=
  if w.owned then (true, { w with worker := w.worker.shutdown, owned := false }) else (false, w)

/-- For the steps that only a worker can answer. -/
def ifOwned (w : World) (otherwise : Result) (f : World → Result × World) : Result × World :=
  if w.owned then f w else (otherwise, w)

def perform (w : World) : Step → Result × World
  | .act a => w.act a
  | .start => w.ifOwned .noWorker fun w => (.bool true, { w with worker := w.worker.start })
  | .drop => let (b, w) := w.drop; (.bool b, w)
  | .markIdle => w.ifOwned .noWorker fun w => (.nothing, { w with worker := w.worker.markIdle })
  | .pendingSize => (.number w.pending.size, w)
  | .storeSize => (.number w.store.size, w)
  | .openJob label => let (b, w) := w.openJob label; (.bool b, w)
  | .waitIdle =>
    let (b, w) := w.come.awaitIdle w.fullyIdleCount (w.worker.now + idlePatience) patience
    (.bool b, w)
  | .waitTerminated timeout =>
    w.ifOwned .nothing fun w =>
      match w.worker.deadline? timeout with
      | some _ => let (b, worker) := w.worker.join; (.bool b, { w with worker })
      -- the caller fails before it has looked at the loop
      | none => (.nothing, w)
  | .describe => w.ifOwned .nothing fun w => (.text (Describe.worker w.worker), w)

end World

/-- What callers can ask a worker. -/
structure Snapshot where
  stats : Stats
  keepAlive : UInt64
  running : Bool
  hasConnection : Bool
  prepared : Bool

structure Observation where
  result : Result
  records : List Record
  signals : List Signal
  links : List LinkCall
  parked : List String
  /-- Nothing when the worker was dropped. -/
  snapshot : Option Snapshot

namespace World

def snapshot? (w : World) : Option Snapshot :=
  if w.owned then
    let stats := w.worker.statistics
    some {
      stats
      keepAlive := w.worker.keepAliveCount
      running := w.worker.isRunning
      hasConnection := w.worker.hasConnection
      prepared := stats.startedAt.isSome }
  else none

def parkedLabels (w : World) : List String :=
  w.parked.filterMap fun id => (w.worker.findRun? id).map w.runLabel

/-- Plays one direction from a world without records. -/
def play (w : World) (d : Direction) : Observation × World :=
  let seen := w.worker.journal.length
  let (result, w) := w.perform d.step
  let w := awaitJobs d.await patience w.come
  let news := (w.worker.journal.take (w.worker.journal.length - seen)).reverse
  ({ result
     records := w.records.reverse
     signals := news.filterMap fun e => match e.event with
       | .signal .fullyIdle => none
       | .signal s => some s
       | _ => none
     links := news.filterMap fun e => match e.event with
       | .link c => some c
       | _ => none
     parked := w.parkedLabels.mergeSort
     snapshot := w.snapshot? },
    { w with records := [] })

def playAll (w : World) : List Direction → List Observation × World
  | [] => ([], w)
  | d :: ds =>
    let (o, w) := w.play d
    let (os, w) := w.playAll ds
    (o :: os, w)

end World

/-- A new worker among its cast, not started. -/
def World.begin (config : Config) (cast : Cast) (stored : List MessageUri) : World :=
  { cast
    worker := .create config 0
    store := stored.foldl (fun s u => (s.insert u).2) {} }

end Outbox.Rehearsal
