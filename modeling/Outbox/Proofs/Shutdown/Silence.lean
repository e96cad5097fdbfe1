import Outbox.Proofs.Delivery.Life
import Outbox.Proofs.Shutdown.Aftermath

/-! # What a shutdown silences

After a shutdown that finds no run on the loop nothing is accepted, begun or counted as failed any
more, and an executor that did not start yet never does. What is left are the ends of the jobs and
of the broadcasts that executors were in the middle of. Main statement: `silent_after_shutdown`. -/
namespace Outbox
set_option autoImplicit false

namespace Event

/-- A run ends without having told or asked anyone. -/
def isQuietEnd : Event → Bool
  | .abandoned _ _ | .ended _ => true
  | _ => false

def closesLink : Event → Bool
  | .link .shutdown => true
  | _ => false

theorem closesLink_of_isParting {e : Event} (h : e.isParting = false) : e.closesLink = false := by
  cases e with
  | link c => cases c <;> first | rfl | cases h
  | _ => rfl

end Event

namespace Worker
variable {config : Config} {w v u : Worker}

/-! ## The connection is shut down once -/

def linkClosings (w : Worker) : Nat := w.journal.countP (·.event.closesLink)

theorem Onward.linkClosings (h : Onward w v) : v.linkClosings = w.linkClosings := by
  obtain ⟨news, hj, hnews⟩ := h.news
  have hnone : news.countP (·.event.closesLink) = 0 := by
    refine List.countP_eq_zero.mpr fun e he => ?_
    rw [Event.closesLink_of_isParting (hnews e he)]
    exact Bool.false_ne_true
  rw [Worker.linkClosings, hj, List.countP_append, hnone, Nat.zero_add]
  rfl

theorem linkClosings_silenced (w : Worker) : w.silenced.linkClosings ≤ w.linkClosings + 1 := by
  have hfarewell : w.farewell.countP (·.event.closesLink) ≤ 1 := by
    unfold farewell
    cases w.linked <;> cases w.installed <;> cases w.loop.mailbox.closed <;>
      simp [Event.closesLink]
  have hj : w.silenced.journal = w.farewell ++ w.journal := rfl
  rw [linkClosings, hj, List.countP_append, Nat.add_comm]
  exact Nat.add_le_add_left hfarewell _

theorem linkClosings_le_one (h : Reachable config w) :
    w.linkClosings ≤ 1 ∧ (w.interrupted = false → w.linkClosings = 0) := by
  refine h.induction (P := fun w => w.linkClosings ≤ 1 ∧
    (w.interrupted = false → w.linkClosings = 0)) ⟨Nat.zero_le 1, fun _ => rfl⟩ ?_
  intro w l v _ ⟨hle, hzero⟩ hs
  rcases step_onward hs with ⟨_, hi, rfl⟩ | ho
  · have hclosed := linkClosings_silenced w
    rw [hzero hi] at hclosed
    exact ⟨hclosed, fun hi' => by cases hi'⟩
  · rw [ho.linkClosings, ho.interrupted]
    exact ⟨hle, hzero⟩

/-! ## What is left -/

theorem tally_shutdown (w : Worker) : w.shutdown.tally = w.tally := by
  cases hi : w.interrupted with
  | true => rw [shutdown_of_interrupted hi]
  | false =>
    rw [shutdown_eq hi]
    rfl

/-- To an executor that did not start its end is left and nothing else. -/
theorem Leftover.of_ready (ho : w.ledger.Owned) {r : Run} (hr : r ∈ w.runs)
    (hp : r.phase = .ready) {e : Event} (he : w.Leftover e) (hrun : e.run? = some r.id) :
    e.isQuietEnd = true := by
  have hself : ∀ {P : Run → Prop}, (∃ q ∈ w.runs, q.id = r.id ∧ P q) → P r := by
    rintro P ⟨q, hq, hid, hP⟩
    exact ho.eq_of_id hq hr hid ▸ hP
  have hidle : r.phase.isUnderway = false := hp ▸ rfl
  cases e with
  | told run l n =>
    cases hrun
    have htell := hself he
    rw [hp] at htell
    cases n with
    | starting | error => cases htell
    | progress | done => cases htell
  | reported | sent | returned | finished | succeeded =>
    cases hrun
    cases hidle.symm.trans (hself he)
  | voted =>
    cases hrun
    have hblaming := hself he
    rw [hp] at hblaming
    cases hblaming
  | failed => cases he
  | abandoned | ended => rfl
  | _ => cases hrun

/-- A shutdown that finds no run on the loop leaves nothing but `Leftover`: listeners who were
still to be told in a broadcast then under way, and the rest of jobs that executors had started.
An executor that had not started only ends. No submission is accepted, the counts of dispatched
and failed jobs stay, that of retries grows by the broadcasts of failures then under way at most,
and that of successes by the jobs then under way at most. Another shutdown changes nothing, and
the connection is shut down once at most. -/
theorem silent_after_shutdown (h : Reachable config w)
    (hloop : ∀ r ∈ w.runs, r.kind.onLoop = false) (hv : w.step .shutdown = some v)
    {ls : List Label} (hu : v.steps ls = some u) :
    (∃ news, u.journal = news ++ v.journal ∧ (∀ e ∈ news, w.Leftover e.event) ∧
      ∀ r ∈ w.runs, r.phase = .ready → ∀ e ∈ news, e.event.run? = some r.id →
        e.event.isQuietEnd = true) ∧
    (∀ s, (u.look s).1 = some (.error .interrupted)) ∧
    u.stats.dispatched = w.stats.dispatched ∧ u.stats.failed = w.stats.failed ∧
    w.stats.requeued ≤ u.stats.requeued ∧ u.stats.requeued ≤ w.stats.requeued + w.blaming ∧
    w.stats.succeeded ≤ u.stats.succeeded ∧
    u.stats.succeeded ≤ w.stats.succeeded + w.underway ∧
    u.step .shutdown = some u ∧ u.linkClosings ≤ 1 := by
  have hreach := h.step hv
  cases hv
  have hruns := runs_shutdown w
  have hloop' : ∀ r ∈ w.shutdown.runs, r.kind.onLoop = false := hruns ▸ hloop
  have hw := steps_wanes hreach (shutdown_interrupted w) hloop' hu
  have hi := interrupted_of_steps (shutdown_interrupted w) hu
  have hsame : w.shutdown.RunsWithin w := .of_subset (hruns ▸ List.Subset.refl _)
  obtain ⟨news, hj, hnews⟩ := hw.news
  have hleft : ∀ e ∈ news, w.Leftover e.event := fun e he => .of_runs hsame (hnews e he)
  obtain ⟨hd, hf, hs, hq⟩ : w.shutdown.stats.dispatched = w.stats.dispatched ∧
      w.shutdown.stats.failed = w.stats.failed ∧
      w.shutdown.stats.succeeded = w.stats.succeeded ∧
      w.shutdown.stats.requeued = w.stats.requeued := by
    simpa only [tally, Prod.mk.injEq] using tally_shutdown w
  have hunderway : w.shutdown.underway = w.underway := by rw [underway, hruns, underway]
  have hblaming : w.shutdown.blaming = w.blaming := by rw [blaming, hruns, blaming]
  have hrequeued := hw.requeued
  have hsucceeded := hw.succeeded
  rw [hq, hblaming] at hrequeued
  rw [hs, hunderway] at hsucceeded
  refine ⟨⟨news, hj, hleft, ?_⟩, ?_, hw.dispatched.trans hd, hw.failed.trans hf, hrequeued.1,
    Nat.le_of_add_right_le hrequeued.2, hsucceeded.1, Nat.le_of_add_right_le hsucceeded.2, ?_,
    (linkClosings_le_one (hreach.steps hu)).1⟩
  · intro r hr hp e he hrun
    exact (hleft e he).of_ready (owned h) hr hp hrun
  · exact fun s => congrArg Prod.fst (look_of_interrupted hi s)
  · exact congrArg some (shutdown_of_interrupted hi)

def refusedJob : Job where
  id := .ofNat 2
  isAsync := true
  plan := .finish (.error .disconnected)

/-- One executor has told the first of two listeners that it starts, another has told it of a
failure, and a third did not start yet. -/
def midBroadcast : List Label :=
  opening ++ [.addListener .detached "first", .addListener .detached "second"] ++
    launching (blankJob 1) ++ launching refusedJob ++ launching (blankJob 3) ++
    advancing 1 2 ++ advancing 2 7

/-- The first two go on to the second listener, and the third ends. -/
def afterwards : List Label :=
  [.advance 1 .none, .advance 2 (.vote true), .advance 2 .none, .advance 2 (.vote false),
    .advance 2 .none, .advance 3 .none, .advance 3 .none, .advance 3 .none]

/-- The executor that did not start has ended, and nothing was dispatched or counted as failed. -/
theorem unstarted_executor_ends :
    ∃ w v u r, Reachable {} w ∧ (∀ r ∈ w.runs, r.kind.onLoop = false) ∧
      w.step .shutdown = some v ∧ v.steps afterwards = some u ∧
      r ∈ w.runs ∧ r.phase = .ready ∧ w.blaming = 1 ∧ u.runs.map Run.id = [1, 2] ∧
      (∃ news, u.journal = news ++ v.journal ∧
        ∀ e ∈ news, e.event.run? = some r.id → e.event.isQuietEnd = true) ∧
      u.stats.dispatched = w.stats.dispatched ∧ u.stats.requeued ≤ w.stats.requeued + 1 := by
  have h : ∃ w v u r, Reachable {} w ∧ (w.runs.all (!·.kind.onLoop)) = true ∧
      w.step .shutdown = some v ∧ v.steps afterwards = some u ∧
      w.runs[2]? = some r ∧ r.phase = .ready ∧ w.blaming = 1 ∧ u.runs.map Run.id = [1, 2] :=
    ⟨_, _, _, _, ⟨midBroadcast, rfl⟩, rfl, rfl, rfl, rfl, rfl, rfl, rfl⟩
  obtain ⟨w, v, u, r, hw, hall, hv, hu, hget, hp, hone, hids⟩ := h
  have hr : r ∈ w.runs := List.mem_of_getElem? hget
  have hloop : ∀ r ∈ w.runs, r.kind.onLoop = false := by
    simpa only [List.all_eq_true, Bool.not_eq_true'] using hall
  obtain ⟨⟨news, hj, _, hready⟩, _, hd, _, _, hq, _⟩ := silent_after_shutdown hw hloop hv hu
  exact ⟨w, v, u, r, hw, hloop, hv, hu, hr, hp, hone, hids, ⟨news, hj, hready r hr hp⟩, hd,
    hone ▸ hq⟩

/-- The second listener hears of a start and of a failure only after the shutdown, and a retry is
counted then. -/
theorem broadcasts_outlast_shutdown :
    ∃ w v u, Reachable {} w ∧ (∀ r ∈ w.runs, r.kind.onLoop = false) ∧
      w.step .shutdown = some v ∧ v.steps afterwards = some u ∧
      u.journal.map JournalEntry.event =
        [.ended 3, .abandoned 3 .interrupted, .voted 2 "second" false,
          .told 2 "second" (.error .disconnected), .voted 2 "first" true,
          .told 1 "second" .starting] ++ v.journal.map JournalEntry.event ∧
      v.stats.requeued = 0 ∧ u.stats.requeued = 1 := by
  have h : ∃ w v u, Reachable {} w ∧ (w.runs.all (!·.kind.onLoop)) = true ∧
      w.step .shutdown = some v ∧ v.steps afterwards = some u ∧
      u.journal.map JournalEntry.event =
        [.ended 3, .abandoned 3 .interrupted, .voted 2 "second" false,
          .told 2 "second" (.error .disconnected), .voted 2 "first" true,
          .told 1 "second" .starting] ++ v.journal.map JournalEntry.event ∧
      v.stats.requeued = 0 ∧ u.stats.requeued = 1 :=
    ⟨_, _, _, ⟨midBroadcast, rfl⟩, rfl, rfl, rfl, rfl, rfl, rfl⟩
  obtain ⟨w, v, u, hw, hall, hrest⟩ := h
  refine ⟨w, v, u, hw, ?_, hrest⟩
  simpa only [List.all_eq_true, Bool.not_eq_true'] using hall

end Worker

end Outbox
