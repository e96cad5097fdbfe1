import Outbox.Proofs.InFlight.Admission
import Outbox.Proofs.Inversion

/-! # The ledger of live runs

The part of a worker that decides who owns which id: the ids in flight, the live runs and the job
that the loop has at hand. `Move` says once what a step can do to it, and `step_move` that every
step does one of these things; all that callers, the loop and the clock do leaves it alone, but
for the loop's picking of a job. -/
namespace Outbox
set_option autoImplicit false

def Label.sparesRuns : Label → Bool
  | .dispatch _ | .advance _ _ => false
  | _ => true

structure Ledger where
  inFlight : InFlight
  runs : List Run
  lastRun : Nat
  picked : Option Job

namespace Ledger

def hand (g : Ledger) (job : Option Job) : Ledger := { g with picked := job }

/-- The phase is all that a run changes until it ends. -/
def setPhase (g : Ledger) (id : Nat) (p : Phase) : Ledger :=
  { g with runs := g.runs.map fun r => if r.id = id then { r with phase := p } else r }

def enter (g : Ledger) (s : InFlight) (r : Run) : Ledger :=
  { inFlight := s, runs := g.runs ++ [r], lastRun := r.id, picked := none }

def giveBack (g : Ledger) (claim : Option MessageId) : Ledger :=
  { g with inFlight := claim.elim g.inFlight fun id => (g.inFlight.release id).2 }

def remove (g : Ledger) (id : Nat) : Ledger := { g with runs := g.runs.filter (·.id != id) }

/-- A run that ends gives back the id that it claimed. -/
def leave (g : Ledger) (r : Run) : Ledger := (g.giveBack r.claim).remove r.id

/-- What a step with a given label can do. -/
inductive Move (g : Ledger) : Label → Ledger → Prop
  | stay {l : Label} (hl : l.sparesRuns = true) : Move g l g
  | reset {l : Label} (hl : l.sparesRuns = true) : Move g l (g.hand none)
  | pick (job : Job) (hloop : ∀ r ∈ g.runs, r.kind.onLoop = false) :
      Move g .iterate (g.hand (some job))
  | drop (view : Worker.View) (job : Job) (hp : g.picked = some job) :
      Move g (.dispatch view) (g.hand none)
  | refuse (view : Worker.View) (r : Run) (hp : g.picked = some r.job) (hid : r.id = g.lastRun + 1)
      (hk : r.kind = .refused) (hc : r.claim = none)
      (hm : ∀ id, ¬ r.job.Sends id) :
      Move g (.dispatch view) (g.enter g.inFlight r)
  | proceed (view : Worker.View) (r : Run) (s : InFlight) (hp : g.picked = some r.job)
      (hid : r.id = g.lastRun + 1) (hk : r.kind ≠ .refused)
      (hc : Worker.claimFor g.inFlight r.job = .ok (.proceed r.claim, s)) :
      Move g (.dispatch view) (g.enter s r)
  | progress (r : Run) (reply : Worker.Reply) (p : Phase) (hr : r ∈ g.runs) (hp : r.phase ≠ .exiting) :
      Move g (.advance r.id reply) (g.setPhase r.id p)
  | leave (r : Run) (hr : r ∈ g.runs) (hp : r.phase = .exiting) :
      Move g (.advance r.id .none) (g.leave r)

end Ledger

namespace Worker

def ledger (w : Worker) : Ledger := ⟨w.inFlight, w.runs, w.lastRun, w.loop.picked⟩

/-! ## What leaves the ledger alone -/

section Frame
variable (w : Worker)

@[simp] theorem ledger_log (e : Event) : (w.log e).ledger = w.ledger := rfl

@[simp] theorem ledger_post (m : Message) (d : Duration) : (w.post m d).2.ledger = w.ledger := by
  unfold post
  split <;> rfl

@[simp] theorem ledger_notify (m : Message) : (w.notify m).ledger = w.ledger := by
  unfold notify
  split
  · exact ledger_post w m .zero
  · rfl

@[simp] theorem ledger_wake : w.wake.ledger = w.ledger := by
  unfold wake
  split <;> rfl

@[simp] theorem ledger_accept (job : Job) (d : Duration) :
    (w.accept job d).2.ledger = w.ledger := by
  have h := ledger_post w (.request job) d
  unfold accept
  split
  · rename_i v hv
    rw [hv] at h
    rw [ledger_wake, ledger_log]
    exact h
  · rename_i v hv
    rw [hv] at h
    exact h

@[simp] theorem ledger_look (s : Submission) : (w.look s).2.ledger = w.ledger := by
  unfold look
  split
  · exact ledger_accept w s.job s.delay
  · rfl
  · rfl

@[simp] theorem ledger_hold : w.hold.ledger = w.ledger := ledger_notify _ _

@[simp] theorem ledger_release : w.release.ledger = w.ledger := by
  unfold release
  dsimp only
  split
  · rfl
  · exact ledger_notify _ _

@[simp] theorem ledger_markIdle : w.markIdle.ledger = w.ledger := ledger_notify _ _

@[simp] theorem ledger_rotate : w.rotate.ledger = w.ledger := by
  unfold rotate
  split
  · dsimp only
    split <;> rfl
  · rfl

@[simp] theorem ledger_shutdown : w.shutdown.ledger = w.ledger := by
  unfold shutdown
  split
  · rfl
  · dsimp only
    split <;> exact ledger_notify _ _

theorem runs_shutdown : w.shutdown.runs = w.runs := congrArg Ledger.runs (ledger_shutdown w)

@[simp] theorem ledger_withLoop (l : Loop) :
    (w.withLoop l).ledger = w.ledger.hand l.picked := rfl

@[simp] theorem ledger_prepare (pending : List Job) : (w.prepare pending).ledger = w.ledger := by
  have hfold : ∀ (jobs : List Job) (v : Worker),
      (jobs.foldl (fun v job => (v.post (.request job) .zero).2) v).ledger = v.ledger := by
    intro jobs
    induction jobs with
    | nil => intro v; rfl
    | cons job jobs ih =>
      intro v
      rw [List.foldl_cons, ih, ledger_post]
  exact hfold pending w

/-! ## The loop -/

theorem ledger_setIdleTimer : w.setIdleTimer.ledger = w.ledger := by
  unfold setIdleTimer
  split
  · dsimp only
    split <;> rfl
  · rfl

theorem ledger_askForStop : w.askForStop.ledger = w.ledger := by
  unfold askForStop
  split
  · dsimp only
    split <;> rfl
  · rfl

theorem ledger_comeToRest : w.comeToRest.ledger = w.ledger :=
  (ledger_askForStop _).trans (ledger_setIdleTimer _)

/-- Only a request changes it, which is then at hand. -/
theorem ledger_handle (e : TimerQueue.Entry Message) :
    (w.handle e).ledger = w.ledger ∨ ∃ job, (w.handle e).ledger = w.ledger.hand (some job) := by
  unfold handle
  dsimp only
  split
  · exact .inr ⟨_, rfl⟩
  · split <;> exact .inl rfl
  all_goals exact .inl rfl

theorem ledger_iterate :
    w.iterate.ledger = w.ledger ∨ ∃ job, w.iterate.ledger = w.ledger.hand (some job) := by
  have htake : (w.withLoop (takeInAll w.loop)).ledger = w.ledger := by
    rw [ledger_withLoop, (takeInAll_facts w.loop).2.1]
    rfl
  unfold iterate
  dsimp only
  split
  · exact .inl htake
  split
  · rename_i e queue _
    have h := ledger_handle ((w.withLoop (takeInAll w.loop)).withLoop
      { (w.withLoop (takeInAll w.loop)).loop with queue }) e
    rw [ledger_withLoop] at h
    rw [← htake]
    exact h
  · split
    · exact .inl ((ledger_comeToRest _).trans htake)
    · exact .inl htake

end Frame

/-! ## Dispatch -/

section Dispatch
variable {w : Worker}

/-- The number of a new run is the next one, and the job is no longer at hand. -/
theorem ledger_begin (v : Worker) {job : Job} {kind : RunKind} {claim : Option MessageId}
    {custom : Option ListenerName} {phase : Phase} (hp : v.ledger.picked = none) :
    (v.begin job kind claim custom phase).ledger = v.ledger.enter v.ledger.inFlight
      { id := v.ledger.lastRun + 1, job, kind, claim, custom, phase } := by
  have hp : v.loop.picked = none := hp
  unfold ledger Ledger.enter begin log
  rw [hp]

theorem ledger_launch (job : Job) (claim : Option MessageId) (custom : Option ListenerName)
    (hp : w.ledger.picked = none) :
    ∃ ticket handle, (w.launch job claim custom true).ledger = w.ledger.enter w.ledger.inFlight
      { id := w.ledger.lastRun + 1, job, kind := .detached ticket handle, claim, custom
        phase := .ready } := by
  obtain ⟨handles, tickets, book, ticket, handle, hl⟩ := launch_spec w job claim custom
  have hv : ({ w.hold with handles, tickets, book } : Worker).ledger = w.ledger := ledger_hold w
  refine ⟨ticket, handle, ?_⟩
  rw [hl, ledger_begin _ ((congrArg Ledger.picked hv).trans hp), hv]

theorem ledger_unstarted (w : Worker) (job : Job) : (w.unstarted job).ledger = w.ledger :=
  (ledger_release _).trans (ledger_hold _)

theorem dispatch_move (w : Worker) (job : Job) (view : View) (hp : w.loop.picked = none) :
    Ledger.Move (w.ledger.hand (some job)) (.dispatch view) (w.dispatch job view).ledger := by
  have hdrop : Ledger.Move (w.ledger.hand (some job)) (.dispatch view) w.ledger := by
    have h := Ledger.Move.drop (g := w.ledger.hand (some job)) view job rfl
    have he : (w.ledger.hand (some job)).hand none = w.ledger := by
      unfold ledger Ledger.hand
      rw [hp]
    rwa [he] at h
  have hspec := dispatch_spec w job view
  generalize w.dispatch job view = u at hspec
  cases hspec with
  | closed | duplicate => exact hdrop
  | refused p listeners custom _ hc =>
    rw [ledger_begin { w with listeners } hp]
    exact .refuse view _ rfl rfl rfl rfl fun _ => not_sends_of_claimFor_error hc
  | inline claim s listeners custom _ hc =>
    rw [ledger_begin (w.admitting s listeners) hp]
    exact .proceed view _ s rfl rfl RunKind.noConfusion hc
  | detached claim s listeners custom _ hc =>
    obtain ⟨ticket, handle, hl⟩ := ledger_launch (w := w.admitting s listeners) job claim custom hp
    rw [hl]
    exact .proceed view _ s rfl rfl RunKind.noConfusion hc
  | unstarted =>
    rw [ledger_unstarted]
    exact hdrop

end Dispatch

/-! ## Runs -/

section Runs
variable {w w' : Worker}

theorem ledger_setPhase (w : Worker) (id : Nat) (p : Phase) :
    (w.setPhase id p).ledger = w.ledger.setPhase id p := rfl

theorem ledger_noted (events : List Event) (v : Worker) :
    (events.foldl log v).ledger = v.ledger := by
  induction events generalizing v with
  | nil => rfl
  | cons e events ih => rw [List.foldl_cons, ih, ledger_log]

theorem ledger_requeue (w : Worker) (r : Run) :
    (w.requeue r).ledger = w.ledger.setPhase r.id .exiting := by
  unfold requeue
  rw [ledger_setPhase, ledger_look]

theorem ledger_freed (w : Worker) (r : Run) : (w.freed r).ledger = w.ledger.giveBack r.claim := by
  unfold freed
  split
  · exact ledger_release _
  · rfl

theorem ledger_exit (w : Worker) (r : Run) : (w.exit r).ledger = w.ledger.leave r := by
  obtain ⟨listeners, he⟩ := exit_spec w r
  rw [he, Ledger.leave, ← ledger_freed]
  rfl

/-- A run ends from the exiting phase and in no other. -/
theorem advanceRun_ledger {r : Run} {reply : Reply} (h : w.advanceRun? r reply = some w') :
    (r.phase = .exiting ∧ reply = .none ∧ w'.ledger = w.ledger.leave r) ∨
      (r.phase ≠ .exiting ∧ ∃ p, w'.ledger = w.ledger.setPhase r.id p) := by
  cases advanceRun_spec h with
  | going _ succeeded failed requeued book events p hp _ =>
    refine .inr ⟨?_, p, ?_⟩
    · rintro he
      rw [he] at hp
      cases hp
    · rw [ledger_setPhase, ledger_noted]
      rfl
  | requeued hp _ => exact .inr ⟨hp ▸ Phase.noConfusion, _, ledger_requeue w r⟩
  | ended hp => exact .inl ⟨hp, rfl, ledger_exit w r⟩

end Runs

/-! ## One step -/

theorem ledger_of_step {w w' : Worker} {l : Label} (hl : l.sparesRuns = true) (hi : l ≠ .iterate)
    (h : w.step l = some w') : w'.ledger = w.ledger ∨ w'.ledger = w.ledger.hand none := by
  cases l with
  | dispatch | advance => cases hl
  | iterate => exact absurd rfl hi
  | submit job delay =>
    obtain ⟨_, rfl⟩ := submit_of_step h
    exact .inl (ledger_look w _)
  | lookAgain =>
    obtain ⟨s, _, rfl⟩ := lookAgain_of_step h
    exact .inl (ledger_look w s)
  | hold =>
    cases h
    exact .inl (ledger_hold w)
  | release =>
    cases h
    exact .inl (ledger_release w)
  | markIdle =>
    obtain ⟨_, rfl⟩ := markIdle_of_step h
    exact .inl (ledger_markIdle w)
  | childRespawning reason =>
    cases h
    exact .inl (ledger_rotate w)
  | cancel handle =>
    obtain ⟨_, rfl⟩ := cancel_of_step h
    exact .inl rfl
  | shutdown =>
    cases h
    exact .inl (ledger_shutdown w)
  | start =>
    cases h
    unfold start
    split
    · exact .inr rfl
    · exact .inl rfl
  | join =>
    cases h
    unfold join
    split
    · exact .inl rfl
    · exact .inr rfl
    · exact .inl rfl
  | tick d =>
    obtain ⟨_, rfl⟩ := tick_of_step h
    exact .inl rfl
  | point =>
    obtain ⟨_, rfl⟩ := atStage_eq_some h
    unfold point
    split
    · exact .inl (ledger_rotate w)
    · exact .inl rfl
  | prepare pending =>
    obtain ⟨_, rfl⟩ := atStage_eq_some h
    exact .inl (ledger_prepare w pending)
  | enter | openLink | opened =>
    obtain ⟨_, rfl⟩ := atStage_eq_some h
    exact .inl rfl
  | addListener | removeListener | setPushId | childTerminated =>
    cases h
    exact .inl rfl

theorem ledger_move_iterate {w w' : Worker} (h : w.step .iterate = some w') :
    w.ledger.Move .iterate w'.ledger := by
  obtain ⟨hfree, rfl⟩ := iterate_of_step h
  obtain ⟨_, _, hloop⟩ := loopFree_facts hfree
  rcases ledger_iterate w with hw | ⟨job, hw⟩ <;> rw [hw]
  · exact .stay rfl
  · exact .pick job hloop

theorem ledger_move_dispatch {w w' : Worker} {view : View} (h : w.step (.dispatch view) = some w') :
    w.ledger.Move (.dispatch view) w'.ledger := by
  obtain ⟨job, hp, rfl⟩ := dispatch_of_step h
  have hm := dispatch_move (w.withLoop { w.loop with picked := none }) job view rfl
  have hg : w.ledger = w.ledger.hand (some job) := by
    unfold ledger Ledger.hand
    rw [hp]
  rw [hg]
  exact hm

theorem ledger_move_advance {w w' : Worker} {id : Nat} {reply : Reply}
    (h : w.step (.advance id reply) = some w') : w.ledger.Move (.advance id reply) w'.ledger := by
  obtain ⟨r, hmem, rfl, hrun⟩ := advance_of_step h
  rcases advanceRun_ledger hrun with ⟨hp, rfl, hw⟩ | ⟨hp, p, hw⟩ <;> rw [hw]
  · exact .leave r hmem hp
  · exact .progress r reply p hmem hp

/-- Whatever happens to a worker, this is what happens to its ledger. -/
theorem step_move {w w' : Worker} {l : Label} (h : w.step l = some w') :
    w.ledger.Move l w'.ledger := by
  by_cases hi : l = .iterate
  · subst hi
    exact ledger_move_iterate h
  cases hl : l.sparesRuns with
  | true =>
    rcases ledger_of_step hl hi h with hw | hw <;> rw [hw]
    · exact .stay hl
    · exact .reset hl
  | false =>
    cases l with
    | dispatch view => exact ledger_move_dispatch h
    | advance id reply => exact ledger_move_advance h
    | _ => cases hl

end Worker

end Outbox
