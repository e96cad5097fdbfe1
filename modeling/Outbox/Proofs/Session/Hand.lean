import Mathlib.Algebra.GroupWithZero.Nat
import Outbox.Proofs.Idle.Inbox
import Outbox.Proofs.Session.Queue
import Outbox.Session

/-! # A loop that only sends messages

Nobody interferes with such a loop and it has no executors: it takes up one message after the other,
and each run hands over its request, is answered and ends. `Hand` says how far the message at hand
has come, `toll` how many steps are left at most. The lemmas tell what each step does to a worker
that is like that. -/
namespace Outbox
set_option autoImplicit false

/-- The answer that a run has been given and has not noted yet. -/
def Run.answer? (r : Run) : Option Outcome :=
  match r.phase with
  | .working (.finish outcome) => some outcome
  | _ => none

namespace Worker
variable {w v : Worker} {r : Run} {n : Nat} {j : MessageJob} {held : List MessageJob}
  {submission : Submission}

/-- The answers of the connection, first first. -/
def answers (w : Worker) : List Outcome :=
  (w.journal.filterMap (·.event.answer?)).reverse ++ w.runs.filterMap Run.answer?

/-- Nothing but dispatches and successes is counted. -/
def Counted (w : Worker) (dispatched succeeded : Nat) : Prop :=
  ∃ startedAt, w.stats = { dispatched, succeeded, startedAt }

/-- Nobody interferes with the loop, and there are no executors. -/
structure Calm (w : Worker) : Prop where
  going : w.interrupted = false
  linked : w.linked = true
  alone : w.tickets.live = []
  unattached : ∀ id, (w.book.get id).execution = none
  loggers : (w.listeners.on .inline).members = [Session.loggerName]

/-! ## The message at hand -/

/-- The request of the job has not been handed over. -/
inductive Outgoing (j : MessageJob) : Phase → Prop
  | ready : Outgoing j .ready
  | starting (rest : List ListenerName) : Outgoing j (.starting rest)
  | looking : Outgoing j (.working j.plan)
  | sending : Outgoing j (.working (.sendLast j.request))

/-- The request is answered, and the success not counted yet. -/
inductive Answered : Phase → Prop
  | noting (tx : TransactionId) : Answered (.working (.finish (.ok tx)))
  | telling (tx : TransactionId) (rest : List ListenerName) : Answered (.completing tx rest)

structure OnlyRun (w : Worker) (r : Run) : Prop where
  runs : w.runs = [r]
  kind : r.kind = .inline
  lane : r.job.lane = .inline
  custom : r.custom = none
  claim : ∃ id, r.claim = some id ∧ w.inFlight.ids = [id]
  picked : w.loop.picked = none

/-- What the loop is occupied with after `n` requests. -/
inductive Hand (w : Worker) (n : Nat) : List MessageJob → Prop
  | free (hr : w.runs = []) (hp : w.loop.picked = none) (hi : w.inFlight.ids = [])
      (hc : w.Counted n n) : Hand w n []
  | picked (j : MessageJob) (hr : w.runs = []) (hp : w.loop.picked = some j.toJob)
      (hi : w.inFlight.ids = []) (hc : w.Counted n n) : Hand w n [j]
  | outgoing (j : MessageJob) (r : Run) (ho : w.OnlyRun r) (hj : r.job = j.toJob)
      (hp : Outgoing j r.phase) (hc : w.Counted (n + 1) n) : Hand w n [j]
  | answered (r : Run) (m : Nat) (ho : w.OnlyRun r) (hp : Answered r.phase) (hn : n = m + 1)
      (hc : w.Counted n m) : Hand w n []
  | leaving (r : Run) (ho : w.OnlyRun r) (hp : r.phase = .exiting) (hc : w.Counted n n) :
      Hand w n []

/-! ## How long it takes -/

/-- Steps to the running loop. -/
def rank : Stage → Nat
  | .entering => 5
  | .pointing => 4
  | .opening => 3
  | .awaitingOpen => 2
  | .preparing => 1
  | _ => 0

/-- Steps to the end of the run of a message without an attachment, one listener being told. -/
def legs : Phase → Nat
  | .ready => 10
  | .starting rest => rest.length + 8
  | .working (.poll _) => 7
  | .working (.send _ _) => 6
  | .working (.finish _) => 4
  | .completing _ rest => rest.length + 2
  | .exiting => 1
  | _ => 0

/-- Steps to the end of the run of every job that waits. -/
def backlog (l : Loop) : Nat :=
  12 * l.awaited.length + (if l.awaited.isEmpty then 0 else l.idles) +
    if l.picked.isSome then 11 else 0

/-- A bound for the steps until the loop runs and has nothing to do. -/
def toll (w : Worker) : Nat :=
  rank w.loop.stage + backlog w.loop + (w.runs.map fun r => legs r.phase).sum

/-! ## The run goes on -/

theorem step_of_run (hr : w.runs = [r]) (reply : Reply) :
    w.step (.advance r.id reply) = w.advanceRun? r reply := by
  have hfind : w.findRun? r.id = some r := by
    unfold findRun?
    rw [hr]
    exact List.find?_cons_of_pos (beq_self_eq_true r.id)
  exact congrArg (Option.bind · fun r => w.advanceRun? r reply) hfind

theorem setPhase_of_run (hr : w.runs = [r]) (p : Phase) :
    w.setPhase r.id p = { w with runs := [{ r with phase := p }] } := by
  unfold setPhase
  rw [hr, List.map_singleton, if_pos rfl]

/-- A run goes on to another phase; it may note something and count. -/
def passed (w : Worker) (r : Run) (p : Phase) (news : List JournalEntry) (book : JobBook)
    (stats : Stats) : Worker :=
  { w with runs := [{ r with phase := p }], journal := news ++ w.journal, book, stats }

theorem OnlyRun.passed (ho : w.OnlyRun r) (p : Phase) (news : List JournalEntry) (book : JobBook)
    (stats : Stats) : (w.passed r p news book stats).OnlyRun { r with phase := p } :=
  ⟨rfl, ho.kind, ho.lane, ho.custom, ho.claim, ho.picked⟩

theorem toll_passed (ho : w.OnlyRun r) (p : Phase) (news : List JournalEntry) (book : JobBook)
    (stats : Stats) : (w.passed r p news book stats).toll + legs r.phase = w.toll + legs p := by
  unfold toll Worker.passed
  rw [ho.runs]
  simp only [List.map_singleton, List.sum_singleton]
  omega

theorem runCanceled_eq (hk : r.kind = .inline) : w.runCanceled r = false := by
  unfold runCanceled
  rw [hk]

theorem jobCanceled_eq (hc : w.Calm) : w.jobCanceled r = false := by
  unfold jobCanceled JobState.isCanceled
  rw [hc.unattached]
  rfl

theorem length_audience (hc : w.Calm) (ho : w.OnlyRun r) : (w.audience r).length = 1 := by
  unfold audience
  rw [ho.lane, hc.loggers]
  rfl

theorem unattached_finish (hc : w.Calm) (id : JobId) :
    ∀ i, ((w.book.finish id).get i).execution = none := by
  intro i
  by_cases hi : i = id
  · subst hi
    exact (congrArg JobState.execution (JobBook.get_set_self _ _ _)).trans (hc.unattached i)
  · exact (congrArg JobState.execution (JobBook.get_set_other _ _ hi)).trans (hc.unattached i)

/-- At its end the run gives its id back. -/
theorem exit_of_onlyRun (ho : w.OnlyRun r) : ∃ inFlight : InFlight, inFlight.ids = [] ∧
    w.exit r = { w with inFlight, runs := [], journal := ⟨w.now, .ended r.id⟩ :: w.journal } := by
  obtain ⟨id, hclaim, hids⟩ := ho.claim
  refine ⟨(w.inFlight.release id).2, ?_, ?_⟩
  · simp [InFlight.release, hids]
  · have hfreed : w.freed r = { w with inFlight := (w.inFlight.release id).2 } := by
      unfold freed
      rw [ho.kind]
      simp only [givenBack, hclaim, Option.elim_some]
    rw [exit_eq, hfreed, ho.custom, ho.runs]
    simp [Listeners.strike, log]

/-! ## Steps that leave the runs alone -/

/-- A step that leaves the runs, what they hold and what they count alone. -/
structure Spared (w v : Worker) : Prop where
  runs : v.runs = w.runs
  inFlight : v.inFlight = w.inFlight
  answers : v.answers = w.answers
  calm : w.Calm → v.Calm
  counted : ∀ dispatched succeeded, w.Counted dispatched succeeded → v.Counted dispatched succeeded

theorem answers_of_news {news : List JournalEntry} (hr : v.runs = w.runs)
    (hj : v.journal = news ++ w.journal) (hn : ∀ e ∈ news, e.event.answer? = none) :
    v.answers = w.answers := by
  unfold Worker.answers
  rw [hr, hj, List.filterMap_append, List.filterMap_eq_nil_iff.mpr hn, List.nil_append]

theorem Hand.spared (h : w.Hand n held) (ha : Spared w v)
    (hp : v.loop.picked = w.loop.picked) : v.Hand n held := by
  have hids : v.inFlight.ids = w.inFlight.ids := congrArg InFlight.ids ha.inFlight
  have honly : ∀ r, w.OnlyRun r → v.OnlyRun r := fun r ho =>
    ⟨ha.runs.trans ho.runs, ho.kind, ho.lane, ho.custom, hids ▸ ho.claim, hp.trans ho.picked⟩
  cases h with
  | free hr hw hi hc =>
    exact .free (ha.runs.trans hr) (hp.trans hw) (hids.trans hi) (ha.counted _ _ hc)
  | picked j hr hw hi hc =>
    exact .picked j (ha.runs.trans hr) (hp.trans hw) (hids.trans hi) (ha.counted _ _ hc)
  | outgoing j r ho hj hw hc => exact .outgoing j r (honly r ho) hj hw (ha.counted _ _ hc)
  | answered r m ho hw hn hc => exact .answered r m (honly r ho) hw hn (ha.counted _ _ hc)
  | leaving r ho hw hc => exact .leaving r (honly r ho) hw (ha.counted _ _ hc)

/-! ## A message is taken up -/

/-- The run that sends a message. -/
def sendingRun (w : Worker) (j : MessageJob) (id : MessageId) : Run where
  id := w.lastRun + 1
  job := j.toJob
  kind := .inline
  claim := some id
  phase := .ready

/-- While no other message is in flight, one that exists is dispatched. -/
theorem dispatch_message (hw : w.Calm) (hi : w.inFlight.ids = []) {view : View}
    (hv : view.connected = true) (hk : view.canceled = false) {id : MessageId}
    (hid : j.uri.messageId = .ok id) (ha : j.isAsync = false) (hl : j.listener = none) :
    w.dispatch j.toJob view = { w with
      lastRun := w.lastRun + 1
      inFlight := ⟨[id]⟩
      stats := { w.stats with dispatched := w.stats.dispatched + 1 }
      runs := w.runs ++ [sendingRun w j id]
      journal := ⟨w.now, .begun (w.lastRun + 1) j.toJob.id .inline⟩ :: w.journal } := by
  have hclaim : claimFor w.inFlight j.toJob = .ok (.proceed (some id), ⟨[id]⟩) := by
    simp [claimFor, MessageJob.toJob, MessageJob.ref, hid, InFlight.claim, hi]
  have hlistener : j.toJob.listener = none := hl
  have hlane : j.toJob.lane = .inline := by
    rw [Job.lane, MessageJob.toJob, ha]
    rfl
  simp only [dispatch, hw.going, hw.linked, hv, hk, registerCustom, hlistener, hclaim, hlane,
    Bool.and_self, Bool.not_true, Bool.false_eq_true, if_false]
  rfl

/-! ## A message comes -/

/-- The job of a submission is in the mailbox. -/
def mailed (w : Worker) (submission : Submission) : Worker :=
  { w with
    waiting := none
    loop := { w.loop with
      mailbox := (w.loop.mailbox.post w.now (.request submission.job) submission.delay).2 } }

/-- What a look for the loop leads to unless it refuses the submission. -/
inductive Admitted (w : Worker) (submission : Submission) : Worker → Prop
  | waits (attempts : UInt32) (hin : w.installed = false) :
      Admitted w submission { w with waiting := some { submission with attempts } }
  | taken (idle : Bool) (news : List JournalEntry) (hin : w.installed = true)
      (hn : ∀ e ∈ news, e.event.answer? = none) :
      Admitted w submission { w.mailed submission with idle, journal := news ++ w.journal }

theorem accept_eq (hc : w.loop.mailbox.closed = false) (submission : Submission) :
    w.accept submission.job submission.delay = (.ok (), (((w.mailed submission).log
      (.posted submission.delay (.request submission.job))).log
        (.accepted submission.job.id)).wake) := by
  unfold accept
  rw [post_eq, hc]
  rfl

theorem look_of_installed (hi : w.interrupted = false) (hin : w.installed = true)
    (hc : w.loop.mailbox.closed = false) (submission : Submission) :
    (w.look submission).1 = some (.ok ()) ∧ Admitted w submission (w.look submission).2 := by
  have hready : w.readiness submission.attempts = .ready := by
    simp [readiness, hi, hin]
  obtain ⟨idle, wake, hwake, he⟩ := wake_eq (((w.mailed submission).log
    (.posted submission.delay (.request submission.job))).log (.accepted submission.job.id))
  have hnews : ∀ e ∈ wake ++ [⟨w.now, .accepted submission.job.id⟩,
      ⟨w.now, .posted submission.delay (.request submission.job)⟩], e.event.answer? = none := by
    refine List.forall_mem_append.mpr ⟨fun e hm => Event.answer?_of_isQuiet (hwake e hm).1, ?_⟩
    exact List.forall_mem_cons.mpr ⟨rfl, List.forall_mem_singleton.mpr rfl⟩
  have htaken : Admitted w submission { w.mailed submission with
      idle, journal := (wake ++ _) ++ w.journal } := .taken idle _ hin hnews
  rw [look, hready]
  dsimp only
  rw [accept_eq hc, he]
  refine ⟨rfl, ?_⟩
  rw [List.append_assoc] at htaken
  exact htaken

/-- Unless it is refused, the job of a submission waits in the mailbox or for the loop. -/
theorem look_admitted (hi : w.interrupted = false) (hc : w.loop.mailbox.closed = false)
    (submission : Submission) :
    (∃ r, (w.look submission).1 = some (.error r)) ∨
      Admitted w submission (w.look submission).2 := by
  cases hin : w.installed with
  | true => exact .inr (look_of_installed hi hin hc submission).2
  | false =>
    unfold look
    cases hr : w.readiness submission.attempts with
    | ready => exact Bool.noConfusion (hin.symm.trans (readiness_eq_ready hr).2)
    | refused r => exact .inl ⟨r, rfl⟩
    | lookAgain => exact .inr (.waits _ hin)

namespace Admitted

theorem spared (h : Admitted w submission v) : Spared w v := by
  cases h with
  | waits => exact ⟨rfl, rfl, rfl, fun hc => { hc with }, fun _ _ hc => hc⟩
  | taken idle news hin hn =>
    exact ⟨rfl, rfl, answers_of_news rfl rfl hn, fun hc => { hc with }, fun _ _ hc => hc⟩

theorem frame (h : Admitted w submission v) : v.now = w.now ∧ v.installed = w.installed ∧
    v.loop.stage = w.loop.stage ∧ v.loop.picked = w.loop.picked := by
  cases h <;> exact ⟨rfl, rfl, rfl, rfl⟩

theorem undelayed (h : Admitted w submission v) (hd : submission.delay = .zero) :
    ∀ s, v.waiting = some s → s.delay = .zero := by
  intro s hs
  cases h with
  | waits =>
    cases hs
    exact hd
  | taken => cases hs

/-- The job comes after all that wait in the loop. -/
theorem awaited (h : Admitted w submission v) (ho : w.loop.Orderly w.now) (hroom : w.now.HasRoom)
    (hd : submission.delay = .zero) : v.loop.Orderly v.now ∧
      v.loop.awaited.map (·.2) ++ v.waiting.toList.map (·.job) =
        w.loop.awaited.map (·.2) ++ [submission.job] := by
  cases h with
  | waits => exact ⟨ho, rfl⟩
  | taken =>
    obtain ⟨horderly, hawaited⟩ := ho.post (Instant.after_zero hroom) submission.job
    have hloop : (w.mailed submission).loop = { w.loop with
        mailbox := (w.loop.mailbox.post w.now (.request submission.job) .zero).2 } := by
      rw [mailed, hd]
    refine ⟨(hloop ▸ horderly : (w.mailed submission).loop.Orderly w.now), ?_⟩
    change (w.mailed submission).loop.awaited.map _ ++ [] = _
    rw [hloop, hawaited, List.map_append, List.append_nil]
    rfl

end Admitted

end Worker

end Outbox
