import Outbox.Worker.Loop

/-! # Dispatch

Decides what becomes of the job that the loop has picked. The first thing that applies wins: the
worker is interrupted, the connection is not there, the job is canceled, its message has no id, its
message is in flight already; otherwise the job runs. The first three leave everything but a
counter alone. From there on the job's own listener is registered, unless it was before. -/
namespace Outbox.Worker
set_option autoImplicit false

/-- What dispatch sees of the world around the worker. -/
structure View where
  connected : Bool
  /-- Whether the job calls itself canceled. -/
  canceled : Bool
  /-- Whether the system has a thread for one more executor. -/
  spawns : Bool
  deriving DecidableEq, Repr

inductive Admission where
  /-- The job may run; it owns the id, if there is one. -/
  | proceed (claim : Option MessageId)
  | duplicate
  deriving DecidableEq, Repr

/-- Only the sending of a message claims an id. -/
def claimFor (s : InFlight) (job : Job) : Except MessageUri.Problem (Admission × InFlight) :=
  match job.message with
  | none => .ok (.proceed none, s)
  | some m =>
    match m.uri.messageId with
    | .error p => .error p
    | .ok id =>
      match s.claim id m.allowsResend with
      | (.claimed, s) => .ok (.proceed (some id), s)
      | (.override, s) => .ok (.proceed none, s)
      | (.duplicate, s) => .ok (.duplicate, s)

def drop (w : Worker) (job : Job) (r : DropReason) : Worker :=
  { w with stats := w.stats.recordDrop r }.log (.dropped job.id r)

/-- Registers the job's own listener; one that is registered already is not the run's. -/
def registerCustom (w : Worker) (job : Job) : Option ListenerName × Worker :=
  match job.listener with
  | none => (none, w)
  | some l =>
    match w.addListener job.lane l with
    | (true, w) => (some l, w)
    | (false, w) => (none, w)

def unregister (w : Worker) (lane : Lane) : Option ListenerName → Worker
  | none => w
  | some l => (w.removeListener lane l).2

def begin (w : Worker) (job : Job) (kind : RunKind) (claim : Option MessageId)
    (custom : Option ListenerName) (phase : Phase) : Worker :=
  let run : Run := { id := w.lastRun + 1, job, kind, claim, custom, phase }
  { w with lastRun := run.id, runs := w.runs ++ [run] }.log (.begun run.id job.id kind)

/-- The name of the executor of a job. -/
def executorName (w : Worker) (job : Job) : String :=
  w.config.name ++ "-async-" ++ job.id.text

/-- Gives back the claim, the ticket of an executor with its hold, and the listener. -/
def giveBack (w : Worker) (lane : Lane) (claim : Option MessageId) (ticket : Option Nat)
    (custom : Option ListenerName) : Worker :=
  let w := match claim with
    | some id => { w with inFlight := (w.inFlight.release id).2 }
    | none => w
  let w := match ticket with
    | some ticket => { w with tickets := (w.tickets.remove ticket).2 }.release
    | none => w
  w.unregister lane custom

/-- Starts an executor: it holds the worker until it exits, and the job observes its handle. When
the system has no thread for it, all that the executor would have held is given back at once, and
the job does not run. -/
def launch (w : Worker) (job : Job) (claim : Option MessageId) (custom : Option ListenerName)
    (spawns : Bool) : Worker :=
  let w := w.hold
  let (handle, handles) := w.handles.make (w.executorName job)
  let (ticket, tickets) := w.tickets.insert handle
  let w := { w with handles, tickets, book := w.book.attach job.id handle }
  if spawns then w.begin job (.detached ticket handle) claim custom .ready
  else (w.giveBack job.lane claim (some ticket) custom).log (.unstarted job.id)

def dispatch (w : Worker) (job : Job) (view : View) : Worker :=
  if w.interrupted then w.drop job .interrupted
  else if !(w.linked && view.connected) then w.drop job .disconnected
  else if view.canceled then w.drop job .canceled
  else
    let (custom, w) := w.registerCustom job
    match claimFor w.inFlight job with
    | .error p =>
      w.begin job .refused none custom (.failing (Failure.ofInvalid p.toInvalid))
    | .ok (.duplicate, _) => (w.drop job .duplicate).unregister job.lane custom
    | .ok (.proceed claim, inFlight) =>
      let w := { w with inFlight, stats := { w.stats with dispatched := w.stats.dispatched + 1 } }
      match job.lane with
      | .detached => w.launch job claim custom view.spawns
      | .inline => w.begin job .inline claim custom .ready

/-- Dispatches the job at hand. -/
def dispatchPicked? (w : Worker) (view : View) : Option Worker :=
  match w.loop.picked with
  | none => none
  | some job => some ((w.withLoop { w.loop with picked := none }).dispatch job view)

end Outbox.Worker
