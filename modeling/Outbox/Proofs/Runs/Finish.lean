import Outbox.Proofs.Runs.Walk

/-! # Every run can end

A live run is never stuck: its plan is finite, and so are the broadcasts in between. When the
connection answers its requests and the listeners their questions, its own steps take it to its end,
unless a submission waits for the loop, which a retry has to wait for too. Main statement:
`can_end`; after a shutdown nothing stands in the way, `can_end_of_interrupted`. -/
namespace Outbox.Worker
set_option autoImplicit false

variable {config : Config} {w v : Worker} {r : Run} {n : Nat}

/-- Steps of its own take the run of this number to its end. -/
def Ends (w : Worker) (n : Nat) : Prop :=
  ∃ (replies : List Reply) (v : Worker),
    w.steps (replies.map (Label.advance n)) = some v ∧ ∀ q ∈ v.runs, q.id ≠ n

theorem Ends.of_step {reply : Reply} (hs : w.step (.advance n reply) = some v) (h : Ends v n) :
    Ends w n := by
  obtain ⟨replies, u, hu, hgone⟩ := h
  exact ⟨reply :: replies, u, steps_cons_eq_some.mpr ⟨v, hs, hu⟩, hgone⟩

/-- Whatever a run can do next it can do now. -/
theorem Stride.possible {reply : Reply} {notice : Option Notice} {events : List Event} {p : Phase}
    (hs : Stride w r reply notice events p) : ∃ v, w.advanceRun? r reply = some v ∧
      v.runs = (w.setPhase r.id p).runs ∧ v.waiting = w.waiting := by
  unfold advanceRun?
  cases hs with
  | cancel hp hc | start hp hc =>
    rw [hp]
    refine ⟨w.beginRun r, rfl, ?_⟩
    simp only [beginRun, hc]
    exact ⟨rfl, rfl⟩
  | @abandon f hp hh | @blame f hp hh =>
    rw [hp]
    refine ⟨w.fail r f, rfl, ?_⟩
    have hcause : (w.runCanceled r || w.interrupted || f.isInterrupted) = _ := hh
    simp only [fail, hcause]
    exact ⟨rfl, rfl⟩
  | @count f vote hp =>
    rw [hp]
    refine ⟨w.count r vote, rfl, ?_⟩
    cases vote <;> exact ⟨rfl, rfl⟩
  | answer _ hp | vote _ hp =>
    rw [hp]
    exact ⟨_, rfl, rfl, rfl⟩
  | _ hp =>
    rw [hp]
    exact ⟨_, rfl, rfl, rfl⟩

/-- From this phase every run can end, if no submission is waiting. -/
def Endable (config : Config) (p : Phase) : Prop :=
  ∀ w r, Reachable config w → w.waiting = none → r ∈ w.runs → r.phase = p → Ends w r.id

theorem Endable.of_stride {p : Phase}
    (h : ∀ w r, r.phase = p → ∃ reply notice events q,
      Stride w r reply notice events q ∧ Endable config q) : Endable config p := by
  intro w r hw hidle hr hp
  obtain ⟨reply, notice, events, q, hs, hq⟩ := h w r hp
  obtain ⟨v, hrun, hruns, hwaiting⟩ := hs.possible
  have hstep : w.step (.advance r.id reply) = some v :=
    (step_advance (owned hw) hr reply).trans hrun
  have hmem : { r with phase := q } ∈ v.runs := by
    rw [hruns]
    exact List.mem_map.mpr ⟨r, hr, if_pos rfl⟩
  exact .of_step hstep (hq v { r with phase := q } (hw.step hstep) (hwaiting.trans hidle) hmem rfl)

theorem waiting_wake (w : Worker) : w.wake.waiting = w.waiting := by
  unfold wake
  split <;> rfl

theorem waiting_accept (w : Worker) (job : Job) (d : Duration) :
    (w.accept job d).2.waiting = none := by
  unfold accept
  split
  · exact waiting_wake _
  · rfl

/-- A submission that may not look again does not wait. -/
theorem waiting_look {s : Submission} (hlast : w.config.submitAttempts ≤ s.attempts) :
    (w.look s).2.waiting = none := by
  unfold look
  split
  · exact waiting_accept w s.job s.delay
  · rfl
  · rename_i hagain
    simp only [readiness, if_pos hlast] at hagain
    split at hagain
    · cases hagain
    · split at hagain <;> cases hagain

/-! ## From the last phase to the first -/

theorem endable_exiting : Endable config .exiting := by
  intro w r hw _ hr hp
  have hrun : w.advanceRun? r .none = some (w.exit r) := by simp only [advanceRun?, hp]
  refine .of_step ((step_advance (owned hw) hr .none).trans hrun) ⟨[], w.exit r, rfl, ?_⟩
  have hruns : (w.exit r).runs = w.runs.filter (·.id != r.id) :=
    congrArg Ledger.runs (ledger_exit w r)
  intro q hq
  rw [hruns] at hq
  exact bne_iff_ne.mp (List.mem_filter.mp hq).2

theorem endable_requeueing : Endable config .requeueing := by
  intro w r hw hidle hr hp
  have hrun : w.advanceRun? r .none = some (w.requeue r) := by
    simp only [advanceRun?, hp, hidle, Option.isNone_none, if_true]
  have hstep := (step_advance (owned hw) hr .none).trans hrun
  have hruns : (w.requeue r).runs = (w.setPhase r.id .exiting).runs :=
    congrArg Ledger.runs (ledger_requeue w r)
  have hmem : { r with phase := .exiting } ∈ (w.requeue r).runs := by
    rw [hruns]
    exact List.mem_map.mpr ⟨r, hr, if_pos rfl⟩
  have hnone : (w.requeue r).waiting = none := waiting_look (UInt32.le_refl _)
  exact .of_step hstep
    (endable_exiting _ { r with phase := .exiting } (hw.step hstep) hnone hmem rfl)

theorem endable_blaming (f : Failure) (rest : List ListenerName) (vote : Bool) :
    Endable config (.blaming f rest vote) := by
  induction rest generalizing vote with
  | nil =>
    refine .of_stride fun w r hp => ⟨_, _, _, _, .count hp, ?_⟩
    cases vote with
    | true => exact endable_requeueing
    | false => exact endable_exiting
  | cons l rest ih =>
    have hvoting : Endable config (.voting l f rest vote) :=
      .of_stride fun w r hp => ⟨_, _, _, _, .vote false hp, ih _⟩
    exact .of_stride fun w r hp => ⟨_, _, _, _, .tellError hp, hvoting⟩

theorem endable_failing (f : Failure) : Endable config (.failing f) := by
  refine .of_stride fun w r hp => ?_
  cases hh : w.hushes r f with
  | true => exact ⟨_, _, _, _, .abandon hp hh, endable_exiting⟩
  | false => exact ⟨_, _, _, _, .blame hp hh, endable_blaming f _ false⟩

theorem endable_completing (tx : TransactionId) (rest : List ListenerName) :
    Endable config (.completing tx rest) := by
  induction rest with
  | nil => exact .of_stride fun w r hp => ⟨_, _, _, _, .succeed hp, endable_exiting⟩
  | cons l rest ih => exact .of_stride fun w r hp => ⟨_, _, _, _, .tellDone hp, ih⟩

/-- The induction runs over the plan; a report puts a broadcast in between. -/
theorem endable_working (plan : Plan) : Endable config (.working plan) := by
  induction plan with
  | finish outcome =>
    cases outcome with
    | ok tx => exact .of_stride fun w r hp => ⟨_, _, _, _, .finish hp, endable_completing tx _⟩
    | error f => exact .of_stride fun w r hp => ⟨_, _, _, _, .giveUp hp, endable_failing f⟩
  | report p plan ih =>
    have hreporting : ∀ rest, Endable config (.reporting p rest plan) := by
      intro rest
      induction rest with
      | nil => exact .of_stride fun w r hp => ⟨_, _, _, _, .resume hp, ih⟩
      | cons l rest ih => exact .of_stride fun w r hp => ⟨_, _, _, _, .tellProgress hp, ih⟩
    exact .of_stride fun w r hp => ⟨_, _, _, _, .report hp, hreporting _⟩
  | poll rest ih => exact .of_stride fun w r hp => ⟨_, _, _, _, .poll hp, ih _⟩
  | send request rest ih =>
    have hsending : Endable config (.sending rest) :=
      .of_stride fun w r hp => ⟨_, _, _, _, .answer (.error .disconnected) hp, ih _⟩
    exact .of_stride fun w r hp => ⟨_, _, _, _, .send hp, hsending⟩

theorem endable (p : Phase) : Endable config p := by
  have hstarting : ∀ rest, Endable config (.starting rest) := by
    intro rest
    induction rest with
    | nil => exact .of_stride fun w r hp => ⟨_, _, _, _, .execute hp, endable_working _⟩
    | cons l rest ih => exact .of_stride fun w r hp => ⟨_, _, _, _, .tellStart hp, ih⟩
  cases p with
  | ready =>
    refine .of_stride fun w r hp => ?_
    cases hc : w.runCanceled r with
    | true => exact ⟨_, _, _, _, .cancel hp hc, endable_failing _⟩
    | false => exact ⟨_, _, _, _, .start hp hc, hstarting _⟩
  | starting rest => exact hstarting rest
  | working plan => exact endable_working plan
  | reporting p rest plan =>
    induction rest with
    | nil => exact .of_stride fun w r hp => ⟨_, _, _, _, .resume hp, endable_working plan⟩
    | cons l rest ih => exact .of_stride fun w r hp => ⟨_, _, _, _, .tellProgress hp, ih⟩
  | sending rest =>
    exact .of_stride fun w r hp =>
      ⟨_, _, _, _, .answer (.error .disconnected) hp, endable_working _⟩
  | completing tx rest => exact endable_completing tx rest
  | failing f => exact endable_failing f
  | blaming f rest vote => exact endable_blaming f rest vote
  | voting l f rest vote =>
    exact .of_stride fun w r hp => ⟨_, _, _, _, .vote false hp, endable_blaming f rest _⟩
  | requeueing => exact endable_requeueing
  | exiting => exact endable_exiting

/-- A live run can come to its end by steps of its own while no submission waits. -/
theorem can_end (h : Reachable config w) (hidle : w.waiting = none) (hr : r ∈ w.runs) :
    w.Ends r.id :=
  endable r.phase w r h hidle hr rfl

/-- In an interrupted worker every run can come to its end, for a submission that waits is refused
as soon as it looks again. -/
theorem can_end_of_interrupted (h : Reachable config w) (hi : w.interrupted = true) (n : Nat) :
    ∃ ls v, w.steps ls = some v ∧ ∀ q ∈ v.runs, q.id ≠ n := by
  by_cases hlive : ∃ r ∈ w.runs, r.id = n
  · obtain ⟨r, hr, rfl⟩ := hlive
    cases hw : w.waiting with
    | none =>
      obtain ⟨replies, v, hv, hgone⟩ := can_end h hw hr
      exact ⟨_, v, hv, hgone⟩
    | some s =>
      have hlook : w.step .lookAgain = some (w.refuse s.job .interrupted) := by
        rw [step, hw, Option.map_some, look_of_interrupted hi]
      obtain ⟨replies, v, hv, hgone⟩ := can_end (h.step hlook) rfl (r := r) hr
      exact ⟨_, v, steps_cons_eq_some.mpr ⟨_, hlook, hv⟩, hgone⟩
  · exact ⟨[], w, rfl, fun q hq hid => hlive ⟨q, hq, hid⟩⟩

end Outbox.Worker
