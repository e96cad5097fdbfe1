import Outbox.Worker.Producer

/-! # The loop

A loop starts the connection, takes the pending jobs, lets producers in and then goes round. Each
round takes in the letters that wait; then it handles the first message that is due, or, when none
is and something was handled before, comes to rest: it sets the idle timer afresh and asks for a
stop if that was armed. A loop that is at rest blocks until a letter comes or a message is due.
`resting` tells when, `iterate` is one round. -/
namespace Outbox.Worker
set_option autoImplicit false

def setStage (w : Worker) (s : Stage) : Worker := { w with loop := { w.loop with stage := s } }

/-! ## Starting -/

def enter (w : Worker) : Worker := w.setStage (if w.interrupted then .exited else .pointing)

/-- Without a connection there is nothing to point or to start. -/
def point (w : Worker) : Worker :=
  if w.linked then w.rotate.setStage .opening else w.setStage .preparing

def openLink (w : Worker) : Worker := (w.log (.link .start)).setStage .awaitingOpen

/-- Takes over the pending jobs and lets producers in, in one step. -/
def prepare (w : Worker) (pending : List Job) : Worker :=
  let w := pending.foldl (fun w job => (w.post (.request job) .zero).2) w
  { w with
    installed := true
    stats := { w.stats with startedAt := some w.now }
    loop := { w.loop with stage := .running, idleArmed := !w.keepAlive.isHeld } }

/-! ## One round -/

def takeIn (l : Loop) (letter : Letter Message) : Loop :=
  match letter.message with
  | .quit => { l with quitting := true }
  | m => { l with queue := l.queue.insert letter.due m }

/-- The letters that wait go into the queue in the order in which they came. -/
def takeInAll (l : Loop) : Loop :=
  let l' := l.mailbox.letters.foldl takeIn l
  { l' with mailbox := { l'.mailbox with letters := [] } }

def removeIdle (l : Loop) : Loop := { l with queue := (l.queue.removeAll Message.isIdle).2 }

def withLoop (w : Worker) (l : Loop) : Worker := { w with loop := l }

/-- Handles one message; a job is only picked and dispatched next. -/
def handle (w : Worker) (e : TimerQueue.Entry Message) : Worker :=
  let w := (w.withLoop { w.loop with dirty := true }).log (.handled e)
  match e.item with
  | .request job => w.withLoop { removeIdle w.loop with picked := some job }
  | .idle => if w.pushId.isSome then w.log (.signal .fullyIdle) else w
  | .disarmIdle => w.withLoop { removeIdle w.loop with idleArmed := false }
  | .armIdle => w.withLoop { removeIdle w.loop with idleArmed := true }
  | .armStop => w.withLoop { w.loop with stopArmed := true }
  | .quit => w.withLoop { w.loop with quitting := true }

/-- The idle timer is set afresh, and only while nothing keeps the worker alive. -/
def setIdleTimer (w : Worker) : Worker :=
  if w.loop.idleArmed then
    let l := removeIdle w.loop
    if w.keepAlive.isHeld then w.withLoop l
    else
      let due := Instant.after w.now w.config.idleTimeout
      (w.withLoop { l with queue := l.queue.insert due .idle }).log (.idleSet due)
  else w

def askForStop (w : Worker) : Worker :=
  if w.loop.stopArmed then
    let w := w.withLoop { w.loop with stopArmed := false }
    if w.idle then w.log (.signal .stopIfIdle) else w
  else w

def comeToRest (w : Worker) : Worker :=
  (w.withLoop { w.loop with dirty := false }).setIdleTimer.askForStop

def exitLoop (w : Worker) : Worker :=
  { w with
    installed := false
    loop := { w.loop with
      stage := .exited
      queue := w.loop.queue.clear
      mailbox := w.loop.mailbox.close } }

def iterate (w : Worker) : Worker :=
  let w := w.withLoop (takeInAll w.loop)
  if w.loop.quitting then w.exitLoop
  else match w.loop.queue.popDue w.now with
    | (some e, queue) => (w.withLoop { w.loop with queue }).handle e
    | (none, _) => if w.loop.dirty then w.comeToRest else w

/-- The loop would block: a round would change nothing. -/
def resting (w : Worker) : Bool :=
  w.loop.mailbox.letters.isEmpty && !w.loop.quitting && !w.loop.dirty &&
    !w.loop.queue.entries.any fun e => e.due ≤ w.now

/-- The loop goes round only while it has no job at hand. -/
def loopFree (w : Worker) : Bool :=
  w.loop.stage == .running && w.loop.picked.isNone && !w.runs.any (·.kind.onLoop)

end Outbox.Worker
