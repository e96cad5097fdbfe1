import Outbox.Config
import Outbox.InFlight
import Outbox.Job.Basic
import Outbox.KeepAlive
import Outbox.Mailbox
import Outbox.Registry
import Outbox.Rotation
import Outbox.Stats
import Outbox.Tickets
import Outbox.TimerQueue

/-! # The state of a worker

A worker stands in front of one connection. Producers post jobs into its mailbox; its loop takes
them in the order of their due times and runs them, inline or on executors of their own. Everything
that several of these can touch is one state here, and what each of them does next is data: the
loop has a stage, every live run a phase. `journal` keeps what happened, last first. -/
namespace Outbox
set_option autoImplicit false

/-- Where a job runs: on the loop, or beside it. -/
inductive Lane where
  | inline
  | detached
  deriving DecidableEq, Repr

def Job.lane (j : Job) : Lane := if j.isAsync then .detached else .inline

structure Listeners where
  inline : Registry ListenerName := {}
  detached : Registry ListenerName := {}
  deriving DecidableEq, Repr

namespace Listeners

def on (l : Listeners) : Lane → Registry ListenerName
  | .inline => l.inline
  | .detached => l.detached

def set (l : Listeners) (lane : Lane) (r : Registry ListenerName) : Listeners :=
  match lane with
  | .inline => { l with inline := r }
  | .detached => { l with detached := r }

def add (l : Listeners) (lane : Lane) (name : ListenerName) : Bool × Listeners :=
  (((l.on lane).add name).1, l.set lane ((l.on lane).add name).2)

def remove (l : Listeners) (lane : Lane) (name : ListenerName) : Bool × Listeners :=
  (((l.on lane).remove name).1, l.set lane ((l.on lane).remove name).2)

@[simp] theorem on_set_self (l : Listeners) (lane : Lane) (r : Registry ListenerName) :
    (l.set lane r).on lane = r := by
  cases lane <;> rfl

theorem on_set_other (l : Listeners) {lane other : Lane} (r : Registry ListenerName)
    (h : other ≠ lane) : (l.set lane r).on other = l.on other :=
  match lane, other with
  | .inline, .detached => rfl
  | .detached, .inline => rfl
  | .inline, .inline => absurd rfl h
  | .detached, .detached => absurd rfl h

end Listeners

/-! ## The loop -/

inductive Message where
  | request (job : Job)
  | idle
  /-- The keep-alive count is above zero: no idle timer any more. -/
  | disarmIdle
  /-- The keep-alive count is zero again. -/
  | armIdle
  /-- Ask for a stop when the loop comes to rest. -/
  | armStop
  | quit

def Message.isIdle : Message → Bool
  | .idle => true
  | _ => false

inductive Stage where
  | absent
  /-- About to look whether the worker is interrupted. -/
  | entering
  /-- About to take the connection and point it at an endpoint. -/
  | pointing
  /-- About to start the connection. -/
  | opening
  | awaitingOpen
  /-- About to take the pending jobs and let producers in. -/
  | preparing
  | running
  | exited
  deriving DecidableEq, Repr

structure Loop where
  stage : Stage := .absent
  mailbox : Mailbox Message := {}
  queue : TimerQueue Message := {}
  /-- Whether coming to rest sets the idle timer. -/
  idleArmed : Bool := false
  /-- Whether coming to rest asks for a stop, once. -/
  stopArmed : Bool := false
  /-- Something was handled since the loop last came to rest. -/
  dirty : Bool := true
  quitting : Bool := false
  /-- The job that the loop is about to dispatch. -/
  picked : Option Job := none

/-! ## Runs -/

inductive RunKind where
  | inline
  /-- On an executor with a ticket and a handle. -/
  | detached (ticket : Nat) (handle : Handle)
  /-- On the loop, only to report that the job's message has no id. -/
  | refused
  deriving DecidableEq, Repr

/-- What a run does next. A list of listeners is what is left of a broadcast: those who were
registered when it began and are not told yet. -/
inductive Phase where
  | ready
  | starting (rest : List ListenerName)
  | working (plan : Plan)
  | reporting (p : Progress) (rest : List ListenerName) (plan : Plan)
  /-- The request is handed over and the answer awaited. -/
  | sending (rest : Outcome → Plan)
  | completing (tx : TransactionId) (rest : List ListenerName)
  | failing (f : Failure)
  | blaming (f : Failure) (rest : List ListenerName) (vote : Bool)
  /-- A listener is told of the failure and its vote awaited. -/
  | voting (listener : ListenerName) (f : Failure) (rest : List ListenerName) (vote : Bool)
  | requeueing
  | exiting

structure Run where
  id : Nat
  job : Job
  kind : RunKind
  /-- The id that this run owns among those in flight. -/
  claim : Option MessageId := none
  /-- The job's own listener if this run registered it. -/
  custom : Option ListenerName := none
  phase : Phase

def RunKind.onLoop : RunKind → Bool
  | .detached _ _ => false
  | _ => true

def RunKind.ticket? : RunKind → Option Nat
  | .detached ticket _ => some ticket
  | _ => none

/-! ## What happens -/

/-- What the worker tells the one who keeps it. -/
inductive Signal where
  | startKeepAlive
  | stopIfIdle
  | fullyIdle
  deriving DecidableEq, Repr

/-- What the worker asks of its connection apart from requests. -/
inductive LinkCall where
  | start
  | point (e : Endpoint)
  | shutdown
  deriving DecidableEq, Repr

inductive Event where
  | posted (delay : Duration) (message : Message)
  | handled (entry : TimerQueue.Entry Message)
  | idleSet (due : Instant)
  | accepted (job : JobId)
  | refused (job : JobId) (r : Refusal)
  | markedIdle
  | dropped (job : JobId) (r : DropReason)
  /-- The system had no thread for the executor of a job. -/
  | unstarted (job : JobId)
  | begun (run : Nat) (job : JobId) (kind : RunKind)
  | told (run : Nat) (listener : ListenerName) (notice : Notice)
  | reported (run : Nat) (p : Progress)
  | sent (run : Nat) (request : Request)
  | returned (run : Nat) (outcome : Outcome)
  | finished (run : Nat) (job : JobId)
  | succeeded (run : Nat)
  /-- A failure is counted, and the listeners are about to be told. -/
  | failed (run : Nat) (f : Failure)
  /-- A failure is passed over in silence. -/
  | abandoned (run : Nat) (f : Failure)
  | voted (run : Nat) (listener : ListenerName) (vote : Bool)
  | ended (run : Nat)
  | signal (s : Signal)
  | link (c : LinkCall)

structure JournalEntry where
  time : Instant
  event : Event

/-- A submission that waits for the loop to be ready. Whoever submits or marks idle has to wait
for it. -/
structure Submission where
  job : Job
  delay : Duration
  attempts : UInt32 := 0

structure Worker where
  config : Config
  now : Instant
  interrupted : Bool := false
  /-- Marked idle since the last submission. -/
  idle : Bool := false
  /-- Producers know the loop's mailbox. -/
  installed : Bool := false
  linked : Bool := true
  listeners : Listeners := {}
  handles : Handles := {}
  tickets : Tickets := {}
  inFlight : InFlight := {}
  keepAlive : KeepAlive
  /-- Set while push delivery is registered. -/
  pushId : Option String := none
  rotation : Rotation
  stats : Stats := {}
  book : JobBook := {}
  waiting : Option Submission := none
  loop : Loop := {}
  runs : List Run := []
  lastRun : Nat := 0
  journal : List JournalEntry := []

namespace Worker

def create (config : Config) (now : Instant) : Worker :=
  { config, now
    keepAlive := ⟨config.initialHolds⟩
    rotation := .ofList config.endpoints }

def log (w : Worker) (e : Event) : Worker := { w with journal := ⟨w.now, e⟩ :: w.journal }

/-- Answers whether the loop is still there to take the message. -/
def post (w : Worker) (m : Message) (delay : Duration) : Bool × Worker :=
  match w.loop.mailbox.post w.now m delay with
  | (true, mailbox) =>
    (true,
      { w with loop := { w.loop with mailbox := mailbox } }.log (.posted delay m))
  | (false, _) => (false, w)

/-- Posts without delay when producers know the mailbox. -/
def notify (w : Worker) (m : Message) : Worker :=
  if w.installed then (w.post m .zero).2 else w

def isRunning (w : Worker) : Bool := !w.interrupted && w.installed

def keepAliveCount (w : Worker) : UInt64 := w.keepAlive.count

def hasConnection (w : Worker) : Bool := w.linked

def statistics (w : Worker) : Stats := { w.stats with asyncRunning := w.tickets.size }

end Worker

end Outbox
