import Outbox.Worker.Advance

/-! # Steps of a worker

`step w l` is the state after the step labelled `l`, if `l` can happen in `w`. Labels come from
everywhere at once: callers, the loop, the executors, the clock. A run of a worker is a list of
labels, each possible in the state that the ones before it have led to.

A step ends where the worker calls what is not its own, a listener, a job or the connection, and
where it waits. What the worker does between two such calls is one step, and the steps of other
threads come before or after it. -/
namespace Outbox
set_option autoImplicit false

inductive Label where
  | submit (job : Job) (delay : Duration)
  /-- A waiting submission looks again. -/
  | lookAgain
  | addListener (lane : Lane) (name : ListenerName)
  | removeListener (lane : Lane) (name : ListenerName)
  | hold
  | release
  | markIdle
  | setPushId (id : Option String)
  | childRespawning (reason : String)
  | childTerminated (reason : String)
  /-- A caller or a job cancels the handle of an executor. -/
  | cancel (handle : Handle)
  | shutdown
  | start
  | join
  | tick (d : Duration)
  | enter
  | point
  | openLink
  | opened
  | prepare (pending : List Job)
  | iterate
  | dispatch (view : Worker.View)
  | advance (run : Nat) (reply : Worker.Reply)

namespace Worker

def atStage (w : Worker) (s : Stage) (next : Worker) : Option Worker :=
  if w.loop.stage = s then some next else none

/-- No submission is waiting, so others may come. -/
def gateOpen (w : Worker) : Bool := w.waiting.isNone

/-- A clock never comes so near its end that no delay could be added. -/
def tick? (w : Worker) (d : Duration) : Option Worker :=
  if w.now + d.nanos + Duration.farFuture.nanos < Instant.limit then
    some { w with now := w.now + d.nanos }
  else none

def step (w : Worker) : Label → Option Worker
  | .submit job delay => if w.gateOpen then some (w.submit job delay).2 else none
  | .lookAgain => w.waiting.map fun s => (w.look s).2
  | .addListener lane name => some (w.addListener lane name).2
  | .removeListener lane name => some (w.removeListener lane name).2
  | .hold => some w.hold
  | .release => some w.release
  | .markIdle => if w.gateOpen then some w.markIdle else none
  | .setPushId id => some (w.setPushId id)
  | .childRespawning reason => some (w.childRespawning reason)
  | .childTerminated reason => some (w.childTerminated reason)
  -- nobody has a handle before it is made
  | .cancel handle => if handle.serial < w.handles.made then some (w.cancel handle) else none
  | .shutdown => some w.shutdown
  | .start => some w.start
  | .join => some w.join.2
  | .tick d => w.tick? d
  | .enter => w.atStage .entering w.enter
  | .point => w.atStage .pointing w.point
  | .openLink => w.atStage .opening w.openLink
  | .opened => w.atStage .awaitingOpen (w.setStage .preparing)
  | .prepare pending => w.atStage .preparing (w.prepare pending)
  -- to ask for a stop the loop looks at the idle flag, which a waiting submission holds
  | .iterate => if w.loopFree && (w.gateOpen || !w.loop.stopArmed) then some w.iterate else none
  | .dispatch view => w.dispatchPicked? view
  | .advance run reply => w.advance? run reply

/-- What the loop does next by itself; at rest it waits. -/
def loopLabel? (w : Worker) (pending : List Job) (view : Job → View) : Option Label :=
  match w.loop.stage with
  | .absent | .exited => none
  | .entering => some .enter
  | .pointing => some .point
  | .opening => some .openLink
  | .awaitingOpen => some .opened
  | .preparing => some (.prepare pending)
  | .running =>
    match w.loop.picked with
    | some job => some (.dispatch (view job))
    | none => if w.resting then none else some .iterate

/-- Looks until the submission is accepted or refused while nobody else does anything. -/
def lookAlone : Nat → Worker → Submission → Except Refusal Unit × Worker
  | 0, w, s => (.error .notReady, w.refuse s.job .notReady)
  | n + 1, w, s =>
    match w.look s with
    | (some r, w) => (r, w)
    | (none, w) =>
      lookAlone n ((w.tick? w.config.submitBackoff).getD w) { s with attempts := s.attempts + 1 }

/-- A submission that nobody else comes between. -/
def submitAlone (w : Worker) (job : Job) (delay : Duration) : Except Refusal Unit × Worker :=
  lookAlone (w.config.submitAttempts.toNat + 1) w { job, delay }

def steps (w : Worker) (ls : List Label) : Option Worker := ls.foldlM step w

/-- A state that a new worker can come to. -/
def Reachable (config : Config) (w : Worker) : Prop :=
  ∃ ls, (create config 0).steps ls = some w

end Worker

end Outbox
