import Outbox.Worker.Dispatch

/-! # Runs

A run tells its listeners that it starts, follows the plan of its job, and tells them how it ended.
After a failure it counts their votes, and a single one for it sends the job back to the mailbox
with the retry delay. At last it gives back what it holds. `advance?` is one step of a run; at some
steps the surroundings have a say. A run that was canceled or whose worker is interrupted fails
without a word. -/
namespace Outbox.Worker
set_option autoImplicit false

/-- What the surroundings answer in a step of a run. -/
inductive Reply where
  | none
  | vote (v : Bool)
  | outcome (o : Outcome)

def findRun? (w : Worker) (id : Nat) : Option Run := w.runs.find? (·.id == id)

def setPhase (w : Worker) (id : Nat) (p : Phase) : Worker :=
  { w with runs := w.runs.map fun r => if r.id = id then { r with phase := p } else r }

/-- The listeners that a broadcast of the run begins with. -/
def audience (w : Worker) (r : Run) : List ListenerName := (w.listeners.on r.job.lane).members

def tell (w : Worker) (r : Run) (l : ListenerName) (n : Notice) (next : Phase) : Worker :=
  (w.log (.told r.id l n)).setPhase r.id next

/-- Whether the run's own handle is canceled; only an executor has one. -/
def runCanceled (w : Worker) (r : Run) : Bool :=
  match r.kind with
  | .detached _ h => w.handles.isCanceled h
  | _ => false

/-- Whether the handle that the job has now is canceled. -/
def jobCanceled (w : Worker) (r : Run) : Bool := (w.book.get r.job.id).isCanceled w.handles

/-! ## The ends of a run -/

/-- A failure is passed over in silence when it comes from an interruption. The look at the flag, the
count and the snapshot of the audience are one step: nothing from outside runs between them. -/
def fail (w : Worker) (r : Run) (f : Failure) : Worker :=
  if w.runCanceled r || w.interrupted || f.isInterrupted then
    (w.log (.abandoned r.id f)).setPhase r.id .exiting
  else
    ({ w with stats := { w.stats with failed := w.stats.failed + 1 } }.log
      (.failed r.id f)).setPhase r.id (.blaming f (w.audience r) false)

def succeed (w : Worker) (r : Run) : Worker :=
  ({ w with stats := { w.stats with succeeded := w.stats.succeeded + 1 } }.log
    (.succeeded r.id)).setPhase r.id .exiting

def takeVote (w : Worker) (r : Run) (l : ListenerName) (v : Bool) (next : Phase) : Worker :=
  (w.log (.voted r.id l v)).setPhase r.id next

def count (w : Worker) (r : Run) (vote : Bool) : Worker :=
  if vote then
    { w with stats := { w.stats with requeued := w.stats.requeued + 1 } }.setPhase r.id .requeueing
  else w.setPhase r.id .exiting

/-- A retry is a submission; its loop is there, so it does not wait. -/
def requeue (w : Worker) (r : Run) : Worker :=
  (w.look
    { job := r.job, delay := w.config.retryDelay, attempts := w.config.submitAttempts }).2.setPhase
      r.id .exiting

/-- The run gives back what it holds and is gone. -/
def exit (w : Worker) (r : Run) : Worker :=
  let w := w.giveBack r.job.lane r.claim r.kind.ticket? r.custom
  { w with runs := w.runs.filter (·.id != r.id) }.log (.ended r.id)

/-! ## One step -/

def followPlan (w : Worker) (r : Run) : Plan → Worker
  | .finish (.ok tx) =>
    ((({ w with book := w.book.finish r.job.id }.log (.returned r.id (.ok tx))).log
      (.finished r.id r.job.id))).setPhase r.id (.completing tx (w.audience r))
  | .finish (.error f) => (w.log (.returned r.id (.error f))).setPhase r.id (.failing f)
  | .report p rest => (w.log (.reported r.id p)).setPhase r.id (.reporting p (w.audience r) rest)
  | .poll rest => w.setPhase r.id (.working (rest (w.jobCanceled r)))
  | .send request rest => (w.log (.sent r.id request)).setPhase r.id (.sending rest)

/-- A canceled executor does not start. -/
def beginRun (w : Worker) (r : Run) : Worker :=
  if w.runCanceled r then w.setPhase r.id (.failing .interrupted)
  else w.setPhase r.id (.starting (w.audience r))

def advanceRun? (w : Worker) (r : Run) (reply : Reply) : Option Worker :=
  match r.phase, reply with
  | .ready, .none => some (w.beginRun r)
  | .starting [], .none => some (w.setPhase r.id (.working r.job.plan))
  | .starting (l :: ls), .none => some (w.tell r l .starting (.starting ls))
  | .working plan, .none => some (w.followPlan r plan)
  | .reporting _ [] plan, .none => some (w.setPhase r.id (.working plan))
  | .reporting p (l :: ls) plan, .none => some (w.tell r l (.progress p) (.reporting p ls plan))
  | .sending rest, .outcome o => some (w.setPhase r.id (.working (rest o)))
  | .completing _ [], .none => some (w.succeed r)
  | .completing tx (l :: ls), .none => some (w.tell r l (.done tx) (.completing tx ls))
  | .failing f, .none => some (w.fail r f)
  | .blaming _ [] vote, .none => some (w.count r vote)
  | .blaming f (l :: ls) vote, .none => some (w.tell r l (.error f) (.voting l f ls vote))
  | .voting l f ls vote, .vote v => some (w.takeVote r l v (.blaming f ls (v || vote)))
  | .requeueing, .none => if w.waiting.isNone then some (w.requeue r) else none
  | .exiting, .none => some (w.exit r)
  | _, _ => none

def advance? (w : Worker) (id : Nat) (reply : Reply) : Option Worker :=
  (w.findRun? id).bind fun r => w.advanceRun? r reply

end Outbox.Worker
