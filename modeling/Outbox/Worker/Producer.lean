import Outbox.Worker.Basic

/-! # What callers ask of a worker

Each call is one step of the state. Only a submission may take several: while the loop is not
ready it looks again, a bounded number of times, and holds back every other submission and
`markIdle` until it is accepted or refused. -/
namespace Outbox.Worker
set_option autoImplicit false

/-! ## Submissions -/

inductive Readiness where
  | ready
  | refused (r : Refusal)
  | lookAgain
  deriving DecidableEq, Repr

def readiness (w : Worker) (attempts : UInt32) : Readiness :=
  if w.interrupted then .refused .interrupted
  else if w.installed then .ready
  else if w.config.submitAttempts ≤ attempts then .refused .notReady
  else .lookAgain

def refuse (w : Worker) (job : Job) (r : Refusal) : Worker :=
  { w with waiting := none }.log (.refused job.id r)

/-- Work has come: whoever marked the worker idle has to keep it after all. -/
def wake (w : Worker) : Worker :=
  if w.idle then { w with idle := false }.log (.signal .startKeepAlive) else w

def accept (w : Worker) (job : Job) (delay : Duration) : Except Refusal Unit × Worker :=
  match w.post (.request job) delay with
  | (true, w) => (.ok (), ({ w with waiting := none }.log (.accepted job.id)).wake)
  | (false, w) => (.error .notReady, w.refuse job .notReady)

/-- One look; `none` while the submission goes on waiting. -/
def look (w : Worker) (s : Submission) : Option (Except Refusal Unit) × Worker :=
  match w.readiness s.attempts with
  | .ready => let (r, w) := w.accept s.job s.delay; (some r, w)
  | .refused r => (some (.error r), w.refuse s.job r)
  | .lookAgain => (none, { w with waiting := some { s with attempts := s.attempts + 1 } })

def submit (w : Worker) (job : Job) (delay : Duration) : Option (Except Refusal Unit) × Worker :=
  w.look { job, delay }

/-! ## Listeners -/

def addListener (w : Worker) (lane : Lane) (name : ListenerName) : Bool × Worker :=
  ((w.listeners.add lane name).1, { w with listeners := (w.listeners.add lane name).2 })

def removeListener (w : Worker) (lane : Lane) (name : ListenerName) : Bool × Worker :=
  ((w.listeners.remove lane name).1, { w with listeners := (w.listeners.remove lane name).2 })

/-! ## Keep-alive and idleness -/

def hold (w : Worker) : Worker :=
  { w with keepAlive := w.keepAlive.hold }.notify .disarmIdle

def release (w : Worker) : Worker :=
  let w := { w with keepAlive := w.keepAlive.release }
  if w.keepAlive.isHeld then w else w.notify .armIdle

def markIdle (w : Worker) : Worker :=
  ({ w with idle := true }.log .markedIdle).notify .armStop

def setPushId (w : Worker) (id : Option String) : Worker := { w with pushId := id }

/-! ## The connection -/

/-- Points the connection at the next endpoint, if the worker still has one. Taking the turn and
pointing the connection are one step, although no lock spans the two: turns that two threads take at
once count in the order in which they point. -/
def rotate (w : Worker) : Worker :=
  if w.linked then
    let (e, rotation) := w.rotation.next
    let w := { w with rotation }
    match e with
    | some e => w.log (.link (.point e))
    | none => w
  else w

def childRespawning (w : Worker) (_reason : String) : Worker := w.rotate

def childTerminated (w : Worker) (_reason : String) : Worker := w

/-- Whoever was given the handle of an executor may cancel it: the job that it was attached to, and
all to whom the job hands it on. -/
def cancel (w : Worker) (handle : Handle) : Worker :=
  { w with handles := w.handles.cancel handle }

/-- Cancels every executor, asks the loop to quit and closes the connection, all in one step; a second
time it does nothing. -/
def shutdown (w : Worker) : Worker :=
  if w.interrupted then w
  else
    let (live, tickets) := w.tickets.drain
    let w := { w with interrupted := true, tickets, handles := w.handles.cancelAll live }
    let w := { w.notify .quit with installed := false }
    if w.linked then { w with linked := false }.log (.link .shutdown) else w

/-! ## The loop from outside -/

/-- Nothing happens while there is a loop, also one that has exited and was not waited for. -/
def start (w : Worker) : Worker :=
  match w.loop.stage with
  | .absent => { w with loop := { stage := .entering } }
  | _ => w

/-- Whether the loop is gone; an exited loop is taken away. -/
def join (w : Worker) : Bool × Worker :=
  match w.loop.stage with
  | .absent => (true, w)
  | .exited => (true, { w with loop := {} })
  | _ => (false, w)

/-- When a wait for the loop's end gives up; the clock may not go that far. -/
def deadline? (w : Worker) (timeout : Duration) : Option Instant := w.now.plus? timeout

end Outbox.Worker
