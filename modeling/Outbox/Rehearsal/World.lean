import Outbox.Pending
import Outbox.Rehearsal.Script

/-! # The world of a rehearsal

The worker, the things around it that scripts speak of, and for each live run what its thread is
about to do. `next?` is the next thing that happens by itself: executors go on before the
loop does, and a thread that is parked does nothing. -/
namespace Outbox.Rehearsal
set_option autoImplicit false

/-- What a run's thread does apart from the steps of the run. -/
structure Thread where
  run : Nat
  /-- What is left of the part of a listener that was told something. -/
  deeds : List (ListenerName × Deed) := []
  /-- The turn of the execution under way. -/
  turn : Option (Nat × Answer) := none

structure World where
  cast : Cast
  worker : Worker
  /-- Nobody has dropped the worker. -/
  owned : Bool := true
  connected : Bool := true
  store : Store := {}
  pending : Pending Job := {}
  threads : List Thread := []
  /-- The runs whose threads are parked, the one parked longest first. -/
  parked : List Nat := []
  /-- Executions so far, by label. -/
  executions : List String := []
  /-- Failures that listeners were told of, with the label of the job. -/
  failures : List (ListenerName × String) := []
  /-- Dispatches that looked whether the job is canceled, by label. -/
  looks : List String := []
  /-- The jobs that have shut the worker down at their dispatch. -/
  tripped : List String := []
  /-- What was seen, last first. -/
  records : List Record := []

namespace World

def record (w : World) (r : Record) : World := { w with records := r :: w.records }

def thread (w : World) (run : Nat) : Thread :=
  (w.threads.find? (·.run == run)).getD { run }

def setThread (w : World) (t : Thread) : World :=
  { w with threads := t :: w.threads.filter (·.run != t.run) }

def park (w : World) (run : Nat) : World := { w with parked := w.parked ++ [run] }

def isParked (w : World) (run : Nat) : Bool := w.parked.contains run

def runLabel (w : World) (r : Run) : String := w.cast.labelOf r.job.id

/-! ## What scripts do -/

def submit (w : World) (label : String) (delay : Duration) : Result × World :=
  match w.cast.job? label with
  | none => (.nothing, w)
  | some s =>
    match w.worker.submitAlone s.job delay with
    | (.ok (), worker) => (.ok, { w with worker })
    | (.error r, worker) => (.refused r, { w with worker })

/-- Nothing can be asked of a worker that was dropped. -/
def act (w : World) (a : Action) : Result × World :=
  if !w.owned then (.noWorker, w)
  else match a with
    | .shutdown => (.nothing, { w with worker := w.worker.shutdown })
    | .submit label => w.submit label .zero
    | .submitAfter label delay => w.submit label delay
    | .pend label =>
      match w.cast.job? label with
      | none => (.nothing, w)
      | some s =>
        let pending := w.pending.push s.job
        (.number pending.size, { w with pending })
    | .addListener name lane =>
      let (b, worker) := w.worker.addListener lane name
      (.bool b, { w with worker })
    | .removeListener name lane =>
      let (b, worker) := w.worker.removeListener lane name
      (.bool b, { w with worker })
    | .hold =>
      let worker := w.worker.hold
      (.number worker.keepAliveCount.toNat, { w with worker })
    | .release =>
      let worker := w.worker.release
      (.number worker.keepAliveCount.toNat, { w with worker })
    | .connect value => (.nothing, { w with connected := value })
    | .storeInsert uri =>
      let (b, store) := w.store.insert uri
      (.bool b, { w with store })
    | .storeRemove uri =>
      let (b, store) := w.store.remove uri
      (.bool b, { w with store })
    | .setPushId id => (.nothing, { w with worker := w.worker.setPushId id })
    | .respawn reason => (.nothing, { w with worker := w.worker.childRespawning reason })
    | .terminated reason => (.nothing, { w with worker := w.worker.childTerminated reason })

/-- A listener is told something: it leaves a record and turns to its part. -/
def tell (w : World) (r : Run) (name : ListenerName) (n : Notice) : World :=
  match w.cast.listener? name with
  | none => w
  | some l =>
    if l.silent then w
    else
      let label := w.runLabel r
      let deeds := ((l.deeds.lookup (Cue.ofNotice n)).getD []).filter fun d =>
        d.onlyFor.all (· == label)
      (w.record (.told name label n)).setThread
        { w.thread r.id with deeds := deeds.map fun d => (name, d) }

/-- The vote of a listener on the failure that it was told of. -/
def vote (w : World) (r : Run) (name : ListenerName) : Bool × World :=
  match w.cast.listener? name with
  | none => (false, w)
  | some l =>
    let key := (name, w.runLabel r)
    (l.votes.nth (w.failures.count key), { w with failures := key :: w.failures })

/-! ## The connection -/

def outcome (w : World) (label : String) (n : Nat) : Answer → Outcome × World
  | .ok => (.ok ⟨"tx-" ++ label ++ "-" ++ toString n⟩, w)
  | .lose => (.error .disconnected, { w with connected := false })
  | .fail f => (.error f, w)

/-- A request arrives: it is recorded and the job's next turn begins. -/
def execute (w : World) (r : Run) (request : Request) : World :=
  let label := w.runLabel r
  let n := w.executions.count label + 1
  let turn := (((w.cast.job? label).map (·.turns)).getD [])[n - 1]?.getD {}
  let w := { w with executions := label :: w.executions }.record (.executed label n request)
  let w := w.setThread { w.thread r.id with turn := some (n, turn.answer) }
  if turn.parks then w.park r.id else w

/-! ## One step of a thread -/

/-- Without a worker and a thread that keeps it, a run ends and gives nothing back. -/
def isGone (w : World) : Bool :=
  !w.owned && (w.worker.loop.stage == .exited || w.worker.loop.stage == .absent) &&
    !w.worker.runs.any fun r => r.kind.onLoop || match r.phase with
      | .blaming .. | .voting .. | .requeueing => true
      | _ => false

def advance (w : World) (r : Run) (reply : Worker.Reply) : World :=
  match w.worker.advance? r.id reply with
  | some worker => { w with worker }
  | none => w

def abandon (w : World) (r : Run) : World :=
  { w with worker := { w.worker with runs := w.worker.runs.filter (·.id != r.id) } }

/-- One step of a run, with what the listeners and the connection add to it. -/
def advanceRun (w : World) (r : Run) : World :=
  match r.phase with
  | .starting (l :: _) => (w.advance r .none).tell r l .starting
  | .reporting p (l :: _) _ => (w.advance r .none).tell r l (.progress p)
  | .completing tx (l :: _) => (w.advance r .none).tell r l (.done tx)
  | .blaming f (l :: _) _ => (w.advance r .none).tell r l (.error f)
  | .voting l _ _ _ =>
    let (v, w) := w.vote r l
    w.advance r (.vote v)
  | .working (.send request _) => (w.advance r .none).execute r request
  | .sending _ =>
    match (w.thread r.id).turn with
    | some (n, answer) =>
      let (o, w) := w.outcome (w.runLabel r) n answer
      (w.setThread { w.thread r.id with turn := none }).advance r (.outcome o)
    | none => w
  | .exiting => if w.isGone && !r.kind.onLoop then w.abandon r else w.advance r .none
  | _ => w.advance r .none

/-- What is left of a listener's part comes before the run goes on. -/
def advanceThread (w : World) (r : Run) : World :=
  let t := w.thread r.id
  match t.deeds with
  | [] => w.advanceRun r
  | (name, d) :: ds =>
    let w := w.setThread { t with deeds := ds }
    match d.action with
    | none => w.park r.id
    | some a =>
      let (result, w) := w.act a
      w.record (.did name (w.runLabel r) a.name result)

/-! ## One step of the loop -/

/-- What dispatch sees, and what looking at it does to a scripted job. -/
def view (w : World) (job : Job) : Worker.View × World :=
  match w.cast.ofId? job.id with
  | none => (⟨w.connected, false, true⟩, w)
  | some s =>
    match s.part with
    | .message j => (⟨w.connected, j.isCanceled w.store, true⟩, w)
    | .payload _ | .minimal _ => (⟨w.connected, false, true⟩, w)
    | .bare _ looks _ =>
      -- a dispatch that ends before it asks the job does not count
      if w.worker.interrupted || !(w.worker.linked && w.connected) then (⟨w.connected, false, true⟩, w)
      else
        (⟨w.connected, looks[w.looks.count s.label]?.getD false, true⟩,
          { w with looks := s.label :: w.looks })

/-- Some jobs shut the worker down when the loop picks them up for the first time. -/
def trip (w : World) (job : Job) : World :=
  match w.cast.ofId? job.id with
  | some { label, part := .bare _ _ true, .. } =>
    if w.tripped.contains label then w
    else { w with worker := w.worker.shutdown, tripped := label :: w.tripped }
  | _ => w

def dispatch (w : World) (job : Job) : World :=
  let (view, w) := (w.trip job).view job
  { w with worker := (w.worker.dispatchPicked? view).getD w.worker }

/-- The loop's next step, if it has one. -/
def loopStep? (w : World) : Option World :=
  match w.worker.loopLabel? w.pending.jobs fun _ => ⟨w.connected, false, true⟩ with
  | none => none
  | some (.dispatch _) => w.worker.loop.picked.map w.dispatch
  | some (.prepare jobs) =>
    (w.worker.step (.prepare jobs)).map fun worker =>
      { w with worker, pending := w.pending.drain.2 }
  | some l => (w.worker.step l).map fun worker => { w with worker }

/-- The next thing that happens by itself. -/
def next? (w : World) : Option World :=
  let awake (r : Run) : Bool := !w.isParked r.id
  match w.worker.runs.find? fun r => awake r && !r.kind.onLoop with
  | some r => some (w.advanceThread r)
  | none =>
    match w.worker.runs.find? (·.kind.onLoop) with
    | some r => if awake r then some (w.advanceThread r) else none
    | none => w.loopStep?

/-- Lets things happen until nothing more does, at most `fuel` of them. -/
def settle : Nat → World → World
  | 0, w => w
  | fuel + 1, w =>
    match w.next? with
    | none => w
    | some w => settle fuel w

end World

end Outbox.Rehearsal
