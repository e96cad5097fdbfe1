import Outbox.Proofs.Rest.Burden
import Outbox.Proofs.Runs.Finish

/-! # Coming to rest

A loop that nobody disturbs while the clock stands still comes to rest: it goes round a bounded
number of times before it exits or blocks with nothing due. `LeftAlone` says what happens
meanwhile, `rounds` counts the rounds that do not block, and `ComesToRest` is the bound. A worker
with an idle timeout of zero breaks the rule, for the timer that its loop sets is due at once, and
no other worker does. Main statement: `comes_to_rest_iff`. -/
namespace Outbox
set_option autoImplicit false

/-- Steps of the loop and the runs, and those that neither post anything nor let time pass. -/
def Label.isInside : Label → Bool
  | .iterate | .dispatch _ | .advance _ _ => true
  | .addListener _ _ | .removeListener _ _ | .setPushId _ | .cancel _ => true
  | .childRespawning _ | .childTerminated _ => true
  | _ => false

namespace Worker
variable {config : Config} {w v : Worker} {l : Label} {ls : List Label}

/-- Nothing is posted from outside, no job is put back, and no time passes. -/
def LeftAlone (h : List Moment) : Prop :=
  ∀ m ∈ h, m.label.isInside = true ∧ ∀ n, ¬ m.Resubmits n

/-- The loop goes round without blocking. -/
def Moment.isRound (m : Moment) : Bool :=
  match m.label with
  | .iterate => !m.source.resting
  | _ => false

def rounds (h : List Moment) : Nat := h.countP Moment.isRound

/-- Whatever happens inside, the loop goes round so many times at most before it exits or rests. -/
def ComesToRest (w : Worker) : Prop :=
  ∃ n, ∀ ls v, w.steps ls = some v → LeftAlone (w.history ls) → rounds (w.history ls) ≤ n

theorem LeftAlone.append {h h' : List Moment} (hu : LeftAlone h) (hu' : LeftAlone h') :
    LeftAlone (h ++ h') :=
  List.forall_mem_append.mpr ⟨hu, hu'⟩

/-! ## Loops that rest -/

/-- No step from inside adds to what is left to do, and a round takes from it. -/
theorem burden_of_step (hw : Reachable config w) (hs : w.step l = some v)
    (hl : l.isInside = true) (hr : ∀ n, ¬ Moment.Resubmits ⟨w, l, v⟩ n) (hspin : ¬ v.Spins) :
    v.burden + (Moment.isRound ⟨w, l, v⟩).toNat ≤ w.burden := by
  cases l with
  | iterate =>
    obtain ⟨hfree, rfl⟩ := iterate_of_step hs
    have hwatched := (watched_kept hw).1
    cases hrest : w.resting with
    | true =>
      rw [Moment.isRound, hrest, iterate_of_resting hwatched hrest]
      exact Nat.le_refl _
    | false =>
      rw [Moment.isRound, hrest]
      rcases burden_iterate hwatched hfree hrest with hless | hspins
      · exact hless
      · exact absurd hspins hspin
  | dispatch view =>
    obtain ⟨job, hp, rfl⟩ := dispatch_of_step hs
    exact burden_dispatch_le hp view
  | advance id reply =>
    obtain ⟨r, hmem, rfl, hrun⟩ := advance_of_step hs
    refine burden_advance_le hmem (fun hp => ?_) hrun
    cases advanceRun_strode hrun with
    | requeued => exact hr r.id ⟨r, hmem, rfl, hp, rfl⟩
    | stride _ hstride =>
      have hearly := hstride.early
      rw [hp] at hearly
      cases hearly
    | ended hphase => cases hp.symm.trans hphase
  | addListener | removeListener | setPushId | childTerminated =>
    cases hs
    exact Nat.le_refl _
  | cancel handle =>
    obtain ⟨_, rfl⟩ := cancel_of_step hs
    exact Nat.le_refl w.burden
  | childRespawning reason =>
    cases hs
    obtain ⟨rotation, news, _, he⟩ := rotate_eq w
    rw [childRespawning, he]
    exact Nat.le_refl w.burden
  | _ => cases hl

/-- The induction is on the labels; no state on the way spins. -/
theorem rounds_add_burden_le (hw : Reachable config w) (hs : w.steps ls = some v)
    (hu : LeftAlone (w.history ls))
    (hspin : ∀ ms u, w.steps ms = some u → LeftAlone (w.history ms) → ¬ u.Spins) :
    rounds (w.history ls) + v.burden ≤ w.burden := by
  induction ls generalizing w with
  | nil =>
    cases hs
    exact Nat.le_of_eq (Nat.zero_add _)
  | cons l ls ih =>
    obtain ⟨u, hl, hrest⟩ := steps_cons_eq_some.mp hs
    rw [history_cons hl] at hu ⊢
    obtain ⟨⟨hinside, hkeep⟩, hu⟩ := List.forall_mem_cons.mp hu
    have hone : LeftAlone [⟨w, l, u⟩] := List.forall_mem_singleton.mpr ⟨hinside, hkeep⟩
    have hnext : ∀ ms x, u.steps ms = some x → LeftAlone (u.history ms) → ¬ x.Spins := by
      intro ms x hms hx
      refine hspin (l :: ms) x (steps_cons_eq_some.mpr ⟨u, hl, hms⟩) ?_
      rw [history_cons hl]
      exact hone.append hx
    have hstep := burden_of_step hw hl hinside hkeep (hnext [] u rfl (List.forall_mem_nil _))
    have hlater := ih (hw.step hl) hrest hu hnext
    have hcount : rounds (⟨w, l, u⟩ :: u.history ls) =
        rounds (u.history ls) + (Moment.isRound ⟨w, l, u⟩).toNat := by
      unfold rounds
      rw [List.countP_cons]
      cases Moment.isRound ⟨w, l, u⟩ <;> rfl
    omega

/-! ## Loops that do not -/

/-- A loop that spins goes round as often as one likes, and nothing else needs to happen. -/
theorem Spins.for_ever (hw : Reachable config w) (h : w.Spins) (n : Nat) :
    ∃ v, w.steps (List.replicate n .iterate) = some v ∧ v.Spins ∧
      LeftAlone (w.history (List.replicate n .iterate)) ∧
      rounds (w.history (List.replicate n .iterate)) = n := by
  induction n generalizing w with
  | zero => exact ⟨w, rfl, h, List.forall_mem_nil _, rfl⟩
  | succ n ih =>
    have hstep := h.step_iterate
    obtain ⟨v, hv, hspins, hu, hrounds⟩ := ih (hw.step hstep) (h.iterate (watched_kept hw).1)
    have hone : LeftAlone [⟨w, .iterate, w.iterate⟩] := by
      refine List.forall_mem_singleton.mpr ⟨rfl, ?_⟩
      rintro n ⟨_, _, _, _, hlabel⟩
      cases hlabel
    have hround : Moment.isRound ⟨w, .iterate, w.iterate⟩ = true := by
      rw [Moment.isRound, h.not_resting]
      rfl
    rw [List.replicate_succ, history_cons hstep]
    refine ⟨v, steps_cons_eq_some.mpr ⟨_, hstep, hv⟩, hspins, hone.append hu, ?_⟩
    unfold rounds at hrounds ⊢
    rw [List.countP_cons, hround, hrounds]
    rfl

/-- A loop comes to rest unless it can come to spin. -/
theorem comesToRest_iff_never_spins (hw : Reachable config w) :
    w.ComesToRest ↔
      ∀ ls v, w.steps ls = some v → LeftAlone (w.history ls) → ¬ v.Spins := by
  constructor
  · rintro ⟨n, hn⟩ ls v hs hu hspins
    obtain ⟨u, hturns, _, hmore, hrounds⟩ := hspins.for_ever (hw.steps hs) (n + 1)
    have hall : w.steps (ls ++ List.replicate (n + 1) .iterate) = some u := by
      rw [steps_append, hs]
      exact hturns
    have halone : LeftAlone (w.history (ls ++ List.replicate (n + 1) .iterate)) := by
      rw [history_append hs]
      exact hu.append hmore
    have hbound := hn _ u hall halone
    rw [history_append hs, rounds, List.countP_append, ← rounds, ← rounds, hrounds] at hbound
    omega
  · intro hnever
    refine ⟨w.burden, fun ls v hs hu => ?_⟩
    exact Nat.le_trans (Nat.le_add_right _ _) (rounds_add_burden_le hw hs hu hnever)

/-! ## Going on -/

/-- The loop or a run on it has a step to take other than to block. -/
def GoesOn (w : Worker) : Prop :=
  ∃ l v, w.step l = some v ∧ ((l = .iterate ∧ w.resting = false) ∨ (∃ view, l = .dispatch view) ∨
    ∃ r ∈ w.runs, r.kind.onLoop = true ∧ ∃ reply, l = .advance r.id reply)

/-- A loop that runs goes on until it rests, unless a submission waits, which holds the idle flag. -/
theorem rests_or_goesOn (hw : Reachable config w) (hs : w.loop.stage = .running)
    (hidle : w.waiting = none) : (w.loopFree = true ∧ w.resting = true) ∨ w.GoesOn := by
  cases hp : w.loop.picked with
  | some job =>
    have hstep : w.step (.dispatch ⟨true, false, true⟩) =
        some ((w.withLoop { w.loop with picked := none }).dispatch job ⟨true, false, true⟩) := by
      simp only [step, dispatchPicked?, hp]
    exact .inr ⟨_, _, hstep, .inr (.inl ⟨_, rfl⟩)⟩
  | none =>
    by_cases hrun : ∃ r ∈ w.runs, r.kind.onLoop = true
    · obtain ⟨r, hr, hk⟩ := hrun
      obtain ⟨replies, v, hv, hgone⟩ := can_end hw hidle hr
      cases replies with
      | nil =>
        cases hv
        exact absurd rfl (hgone r hr)
      | cons reply replies =>
        obtain ⟨u, hu, _⟩ := steps_cons_eq_some.mp hv
        exact .inr ⟨_, u, hu, .inr (.inr ⟨r, hr, hk, reply, rfl⟩)⟩
    · have hnone : w.runs.any (·.kind.onLoop) = false :=
        List.any_eq_false.mpr fun r hr hk => hrun ⟨r, hr, hk⟩
      have hfree : w.loopFree = true := by
        rw [loopFree, hs, hp, hnone]
        rfl
      have hboth : (w.loopFree && (w.gateOpen || !w.loop.stopArmed)) = true := by
        rw [hfree, gateOpen, hidle]
        rfl
      have hstep : w.step .iterate = some w.iterate := if_pos hboth
      cases hrest : w.resting with
      | true => exact .inl ⟨hfree, rfl⟩
      | false => exact .inr ⟨_, _, hstep, .inl ⟨rfl, hrest⟩⟩

/-! ## Configurations -/

theorem initialHolds_of_read {lookup : Config.Lookup} (h : Config.read lookup = .ok config) :
    config.initialHolds = 0 := by
  unfold Config.read at h
  simp only [bind, Except.bind, pure, Except.pure] at h
  repeat' split at h
  all_goals cases h
  rfl

/-- A loop that has just begun sets its timer and spins if that is due at once. -/
theorem spins_once_open (hholds : config.initialHolds = 0) (hzero : config.idleTimeout = .zero) :
    ∃ w, (create config 0).steps opening = some w ∧ w.Spins := by
  let pointing : Worker := (create config 0).withLoop { stage := .pointing }
  obtain ⟨rotation, news, _, he⟩ := rotate_eq pointing
  have hpoint : pointing.step .point = some (pointing.rotate.setStage .opening) := rfl
  rw [he] at hpoint
  let prepared : Worker := { pointing with
    rotation, installed := true, stats := { startedAt := some 0 }
    loop := { stage := .running, idleArmed := !pointing.keepAlive.isHeld }
    journal := ⟨0, .link .start⟩ :: (news ++ pointing.journal) }
  have hpointing : (create config 0).steps [.start, .enter] = some pointing := rfl
  have hprepare : ({ pointing with rotation, journal := news ++ pointing.journal }.setStage
      .opening).steps [.openLink, .opened, .prepare []] = some prepared := rfl
  have hopen : (create config 0).steps
      ([.start, .enter] ++ .point :: [.openLink, .opened, .prepare []]) = some prepared := by
    rw [steps_append, hpointing]
    exact steps_cons_eq_some.mpr ⟨_, hpoint, hprepare⟩
  refine ⟨prepared, hopen, ?_⟩
  exact {
    timeout := hzero
    free := rfl
    unhindered := rfl
    letters := rfl
    going := rfl
    armed := by
      change (!(config.initialHolds != 0)) = true
      rw [hholds]
      rfl
    unheld := by
      change (config.initialHolds != 0) = false
      rw [hholds]
      rfl
    only := List.forall_mem_nil _
    hot := .inl rfl }

/-- Whatever configuration is read from the environment, every loop comes to rest exactly if the
idle timeout is not zero; with a timeout of zero those do that never come to a state in which only
a due timer is left. A loop that runs is not stuck on the way. -/
theorem comes_to_rest_iff {lookup : Config.Lookup} (h : Config.read lookup = .ok config) :
    ((∀ w, Reachable config w → w.ComesToRest) ↔ config.idleTimeout ≠ .zero) ∧
      ∀ w, Reachable config w →
        (w.ComesToRest ↔ ∀ ls v, w.steps ls = some v → LeftAlone (w.history ls) → ¬ v.Spins) ∧
        (w.loop.stage = .running → w.waiting = none →
          (w.loopFree = true ∧ w.resting = true) ∨ w.GoesOn) := by
  refine ⟨⟨fun hall hzero => ?_, fun htimeout w hw => ?_⟩, fun w hw =>
    ⟨comesToRest_iff_never_spins hw, rests_or_goesOn hw⟩⟩
  · obtain ⟨w, hs, hspins⟩ := spins_once_open (initialHolds_of_read h) hzero
    have hw : Reachable config w := ⟨_, hs⟩
    exact (comesToRest_iff_never_spins hw).mp (hall w hw) [] w rfl (List.forall_mem_nil _) hspins
  · refine (comesToRest_iff_never_spins hw).mpr fun ls v hs _ hspins => htimeout ?_
    rw [← hspins.timeout, config_eq (hw.steps hs)]

/-- An environment that gives the idle timer no time at all. -/
def impatient : Config.Lookup := fun key => if key = "COURIER_IDLE_TIMEOUT_MS" then some "0" else none

/-- While no time passes and nothing is posted, the loop reports again and again that it is idle. -/
theorem impatient_loop_spins :
    Config.read impatient = .ok { idleTimeout := .zero } ∧
      (¬ ∀ w, Reachable { idleTimeout := .zero } w → w.ComesToRest) ∧
      ∃ w v, (create { idleTimeout := .zero } 0).steps (opening ++ [.setPushId (some "token")]) =
          some w ∧
        w.steps (List.replicate 7 .iterate) = some v ∧ v.now = w.now ∧ v.resting = false ∧
        v.signals = [.fullyIdle, .fullyIdle, .fullyIdle] := by
  have hread : Config.read impatient = .ok { idleTimeout := .zero } := rfl
  refine ⟨hread, fun hall => ?_, ?_⟩
  · exact (comes_to_rest_iff hread).1.mp hall rfl
  · exact ⟨_, _, rfl, rfl, rfl, rfl, rfl⟩

end Worker

end Outbox
