import Outbox.Job.Message
import Outbox.Job.Payload
import Outbox.Worker.Step

/-! # Scripts for a rehearsal

A rehearsal runs a worker step by step against surroundings that follow a script: the connection
answers each job as its script says, listeners do what their parts say, and a thread that parks
waits until a step opens it. -/
namespace Outbox.Rehearsal
set_option autoImplicit false

/-! ## What is done -/

inductive Action where
  | shutdown
  | submit (job : String)
  | submitAfter (job : String) (delay : Duration)
  | pend (job : String)
  | addListener (name : ListenerName) (lane : Lane)
  | removeListener (name : ListenerName) (lane : Lane)
  | hold
  | release
  | connect (value : Bool)
  | storeInsert (uri : MessageUri)
  | storeRemove (uri : MessageUri)
  | setPushId (id : Option String)
  | respawn (reason : String)
  | terminated (reason : String)

def Action.name : Action → String
  | .shutdown => "shutdown"
  | .submit _ => "submit"
  | .submitAfter _ _ => "submit_after"
  | .pend _ => "pend"
  | .addListener _ _ => "add_listener"
  | .removeListener _ _ => "remove_listener"
  | .hold => "hold"
  | .release => "release"
  | .connect _ => "connect"
  | .storeInsert _ => "store_insert"
  | .storeRemove _ => "store_remove"
  | .setPushId _ => "push_id"
  | .respawn _ => "respawn"
  | .terminated _ => "terminated"

/-- What a listener's part says for one notice, and for which job; `none` parks the thread. -/
structure Deed where
  action : Option Action
  onlyFor : Option String := none

inductive Step where
  | act (a : Action)
  | start
  | drop
  | markIdle
  | pendingSize
  | storeSize
  | openJob (job : String)
  | waitIdle
  | waitTerminated (timeout : Duration)
  | describe

/-- A step and the jobs that have to come to rest after it. -/
structure Direction where
  step : Step
  await : List String := []

/-! ## Jobs -/

inductive Answer where
  | ok
  | lose
  | fail (f : Failure)
  deriving DecidableEq, Repr

/-- One execution: the thread may park before the answer. -/
structure Turn where
  parks : Bool := false
  answer : Answer := .ok
  deriving DecidableEq, Repr

inductive Part where
  | message (job : MessageJob)
  | payload (job : PayloadJob)
  | minimal (id : JobId)
  /-- A job that reports what it is told to; `looks` are its answers to dispatch. -/
  | bare (job : Job) (looks : List Bool) (shutdownAtDispatch : Bool)

structure JobScript where
  label : String
  part : Part
  turns : List Turn := []

/-- The plan of a bare job: reports, each followed by a look at the handle, and a request. -/
def barePlan (id : JobId) : List Progress → Plan
  | [] => .sendLast ⟨id, "bare", .null⟩
  | p :: ps => .report p (.unlessCanceled (barePlan id ps))

def JobScript.job (s : JobScript) : Job :=
  match s.part with
  | .message j => j.toJob
  | .payload j => j.toJob
  | .minimal id => { id, plan := .sendLast ⟨id, "minimal", .null⟩ }
  | .bare j _ _ => j

/-! ## Listeners -/

/-- The kinds of notice that a part tells apart. -/
inductive Cue where
  | starting
  | download
  | upload
  | done
  | error
  deriving DecidableEq, Repr

def Cue.ofNotice : Notice → Cue
  | .starting => .starting
  | .progress (.download _) => .download
  | .progress (.upload _) => .upload
  | .done _ => .done
  | .error _ => .error

inductive Votes where
  | always (v : Bool)
  /-- One vote for each failure of a job, and none beyond them. -/
  | inTurn (vs : List Bool)
  deriving DecidableEq, Repr

def Votes.nth (v : Votes) (n : Nat) : Bool :=
  match v with
  | .always b => b
  | .inTurn vs => vs[n]?.getD false

structure ListenerScript where
  name : ListenerName
  votes : Votes := .always false
  deeds : List (Cue × List Deed) := []
  /-- A silent listener votes and does nothing else. -/
  silent : Bool := false

structure Cast where
  jobs : List JobScript
  listeners : List ListenerScript

namespace Cast

def job? (c : Cast) (label : String) : Option JobScript := c.jobs.find? (·.label == label)

def ofId? (c : Cast) (id : JobId) : Option JobScript := c.jobs.find? (·.job.id == id)

def labelOf (c : Cast) (id : JobId) : String := ((c.ofId? id).map (·.label)).getD ""

def listener? (c : Cast) (name : ListenerName) : Option ListenerScript :=
  c.listeners.find? (·.name == name)

end Cast

/-! ## What is seen -/

inductive Result where
  | nothing
  | ok
  | refused (r : Refusal)
  | bool (b : Bool)
  | number (n : Nat)
  | text (s : String)
  | noWorker
  deriving DecidableEq, Repr

inductive Record where
  | executed (job : String) (turn : Nat) (request : Request)
  | told (listener : ListenerName) (job : String) (notice : Notice)
  | did (listener : ListenerName) (job : String) (action : String) (result : Result)

end Outbox.Rehearsal
