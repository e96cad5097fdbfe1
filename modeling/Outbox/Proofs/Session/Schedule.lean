import Outbox.Proofs.Session.Hand
import Outbox.Session

/-! # A session that sends lines

Each line is a message of its own and submitted when its turn comes; in between the loop and its
runs go on by themselves and the clock passes, in any order. `Taking` lists the states that such a
session can come to while no line is refused, and `Sound` is what holds in all of them: the messages
executed, the one at hand and those that wait are the lines in their order. -/
namespace Outbox
set_option autoImplicit false

namespace Session

/-! ## Schedules -/

/-- The job of a line; its number is a machine word. -/
def errand (peer : String) (number : UInt64) (body : String) : MessageJob where
  id := .ofNat number.toNat
  uri := .ofId messagesBase ⟨number⟩
  peer := peer
  body := body

/-- The jobs of lines counted from one. -/
def errands (peer : String) (lines : List String) : List MessageJob :=
  lines.mapIdx fun i body => errand peer (.ofNat (i + 1)) body

theorem exists_of_mem_errands {peer : String} {lines : List String} {j : MessageJob}
    (h : j ∈ errands peer lines) : ∃ number body, j = errand peer number body := by
  obtain ⟨i, hi, rfl⟩ := List.mem_mapIdx.mp h
  exact ⟨_, _, rfl⟩

/-- The id that a line's message claims is its number. -/
theorem messageId_errand (peer : String) (number : UInt64) (body : String) :
    (errand peer number body).uri.messageId = .ok ⟨number⟩ := by
  have hall : (MessageUri.afterScheme (Text.dropEnd (· == '/') messagesBase.toList)).all
      (fun c => !MessageUri.isTailMark c) = true := by decide
  refine MessageUri.messageId_ofId (fun c hc => ?_) ⟨number⟩
  exact (Bool.not_eq_true' _).mp (List.all_eq_true.mp hall c hc)

/-- Started, but nothing has happened yet. -/
def opening (config : Config) (now : Instant) : Session :=
  let w := Worker.create config now
  let w := (w.addListener .inline loggerName).2
  let w := (w.addListener .detached loggerName).2
  { worker := w.start }

/-- One look for the loop, unless the submission is refused then. -/
def look? (w : Worker) (submission : Submission) : Option Worker :=
  match w.look submission with
  | (some (.error _), _) => none
  | (_, w) => some w

/-- The next line is submitted; it may have to wait for the loop. -/
def offer? (s : Session) (peer body : String) : Option Session :=
  let job := errand peer (s.submitted + 1) body
  (look? s.worker { job := job.toJob, delay := .zero }).map fun worker =>
    { s with worker, store := (s.store.insert job.uri).2, submitted := s.submitted + 1 }

/-- The line that waits looks for the loop again. -/
def lookAgain? (s : Session) : Option Session :=
  (s.worker.waiting.bind (look? s.worker)).map fun worker => { s with worker }

/-- The states of a session that has taken these lines, whatever comes between them. -/
inductive Taking (peer : String) (config : Config) (now : Instant) : List String → Session → Prop
  | opening : Taking peer config now [] (opening config now)
  | tick {lines : List String} {s s' : Session} (d : Duration) (h : Taking peer config now lines s)
      (hs : s.step? (.tick d) = some s') : Taking peer config now lines s'
  | next {lines : List String} {s s' : Session} (h : Taking peer config now lines s)
      (hs : s.next? = some s') : Taking peer config now lines s'
  | offer {lines : List String} {s s' : Session} (body : String)
      (h : Taking peer config now lines s) (hgate : s.worker.waiting = none)
      (hs : s.offer? peer body = some s') : Taking peer config now (lines ++ [body]) s'
  | lookAgain {lines : List String} {s s' : Session} (h : Taking peer config now lines s)
      (hs : s.lookAgain? = some s') : Taking peer config now lines s'

theorem start_eq (config : Config) (now : Instant) :
    start config now = settle patience (opening config now) := rfl

end Session

/-! ## What has happened -/

namespace Loopback

/-- A connection that has executed these requests. -/
def after (requests : List Request) : Loopback where
  recorded := requests.reverse
  acknowledged := .ofNat requests.length

theorem execute_after (requests : List Request) (r : Request) :
    (after requests).execute r =
      (.ok (transaction (.ofNat (requests.length + 1))), after (requests ++ [r])) := by
  simp [execute, after, UInt64.ofNat_add]

/-- The answers to the first requests. -/
def answers (n : Nat) : List Outcome :=
  (List.range n).map fun i => .ok (transaction (.ofNat (i + 1)))

theorem answers_succ (n : Nat) :
    answers (n + 1) = answers n ++ [.ok (transaction (.ofNat (n + 1)))] := by
  rw [answers, List.range_succ, List.map_append]
  rfl

end Loopback

namespace Session

/-- Of the lines taken `done` are executed, `held` is at hand and `rest` waits. -/
structure Sound (peer : String) (lines : List String) (done held rest : List MessageJob)
    (s : Session) : Prop where
  order : errands peer lines = done ++ held ++ rest
  room : s.worker.now.HasRoom
  calm : s.worker.Calm
  stage : s.worker.installed = true ∧ s.worker.loop.stage = .running ∨
    s.worker.installed = false ∧ 0 < Worker.rank s.worker.loop.stage
  inbox : s.worker.loop.Orderly s.worker.now
  hand : s.worker.Hand done.length held
  rest : s.worker.loop.awaited.map (·.2) ++ s.worker.waiting.toList.map (·.job) =
    rest.map (·.toJob)
  undelayed : ∀ submission, s.worker.waiting = some submission → submission.delay = .zero
  connection : s.connection = .after (done.map (·.request))
  answers : s.worker.answers = Loopback.answers done.length
  stored : ∀ j ∈ errands peer lines, j.uri ∈ s.store.uris
  submitted : s.submitted = .ofNat lines.length

end Session

end Outbox
