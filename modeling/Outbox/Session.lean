import Outbox.Job.Message
import Outbox.Logging
import Outbox.Loopback
import Outbox.Worker.Step

/-! # A session

A worker in front of a loopback connection, with a store that its messages come from and a listener
for each lane that only logs. Every message is on its way before the next one is taken. -/
namespace Outbox
set_option autoImplicit false

structure Session where
  worker : Worker
  connection : Loopback := {}
  store : Store := {}
  /-- Messages submitted so far; the last one has this number. -/
  submitted : UInt64 := 0

namespace Session

/-- The uris of the messages are under this one. -/
def messagesBase : String := "content://courier/messages"

def logger : LoggingListener := {}

def loggerName : ListenerName := "logging"

def step? (s : Session) (l : Label) : Option Session :=
  (s.worker.step l).map fun worker => { s with worker }

/-! ## What happens by itself -/

def view (s : Session) (job : Job) : Worker.View where
  connected := s.connection.connected
  canceled := job.message.any fun m => !s.store.contains m.uri
  spawns := true

def advance? (s : Session) (r : Run) : Option Session :=
  match r.phase with
  | .voting .. => s.step? (.advance r.id (.vote logger.vote))
  | .working (.send request _) =>
    let (outcome, connection) := s.connection.execute request
    ({ s with connection }.step? (.advance r.id .none)).bind
      (·.step? (.advance r.id (.outcome outcome)))
  | _ => s.step? (.advance r.id .none)

/-- The next thing that happens by itself; runs go before the loop. -/
def next? (s : Session) : Option Session :=
  match s.worker.runs with
  | r :: _ => s.advance? r
  | [] => (s.worker.loopLabel? [] s.view).bind s.step?

/-- Lets things happen until nothing more does, at most `fuel` of them. -/
def settle : Nat → Session → Session
  | 0, s => s
  | fuel + 1, s =>
    match s.next? with
    | none => s
    | some s => settle fuel s

/-- More than a message takes from its submission to the end of its run. -/
def patience : Nat := 1000

/-! ## From outside -/

def start (config : Config) (now : Instant) : Session :=
  let w := Worker.create config now
  let w := (w.addListener .inline loggerName).2
  let w := (w.addListener .detached loggerName).2
  settle patience { worker := w.start }

def send (s : Session) (peer body : String) : Except Refusal Session :=
  let number := s.submitted + 1
  let uri := MessageUri.ofId messagesBase ⟨number⟩
  let job : MessageJob := { id := .ofNat number.toNat, uri, peer, body }
  match s.worker.submitAlone job.toJob .zero with
  | (.ok (), worker) =>
    .ok (settle patience { s with worker, store := (s.store.insert uri).2, submitted := number })
  | (.error r, _) => .error r

end Session

end Outbox
