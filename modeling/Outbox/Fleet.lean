import Outbox.Pending
import Outbox.Worker.Step

/-! # Workers that share a pending queue

Any number of workers may stand by one pending queue, each in front of a connection of its own. The
queue is all that they share: whichever loop prepares first takes what is in it. -/
namespace Outbox
set_option autoImplicit false

structure Fleet where
  pending : Pending Job := {}
  workers : List Worker

namespace Fleet

/-- What happens in a fleet; workers are told apart by their places. -/
inductive Happening where
  | push (job : Job)
  /-- The loop of a worker prepares and takes the pending jobs. -/
  | prepare (worker : Nat)
  /-- Any other step of a worker. -/
  | step (worker : Nat) (l : Label)

/-- New workers and nothing pending. -/
def create (configs : List Config) : Fleet :=
  { workers := configs.map fun c => Worker.create c 0 }

def stepWorker (f : Fleet) (i : Nat) (l : Label) : Option Fleet :=
  match f.workers[i]? with
  | none => none
  | some w => (w.step l).map fun w => { f with workers := f.workers.set i w }

def step (f : Fleet) : Happening → Option Fleet
  | .push job => some { f with pending := f.pending.push job }
  | .prepare i =>
    let (jobs, pending) := f.pending.drain
    (f.stepWorker i (.prepare jobs)).map fun f => { f with pending }
  | .step _ (.prepare _) => none
  | .step i l => f.stepWorker i l

def steps (f : Fleet) (hs : List Happening) : Option Fleet := hs.foldlM step f

end Fleet

end Outbox
