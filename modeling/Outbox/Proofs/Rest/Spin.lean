import Outbox.Proofs.Idle.Steps

/-! # Loops that never come to rest

A round that finds nothing due sets the idle timer, and a timer that is due as soon as it is set
makes the next round handle it and the one after that set it again. `Goes` is what a round can do;
`Spins` says of a loop that it has nothing left but such a timer. Main statements: `Spins.iterate`,
a round does not get it out of there, and `Spins.not_resting`. -/
namespace Outbox.Worker
set_option autoImplicit false

variable {config : Config} {w v : Worker}

/-! ## What a round does -/

/-- The queue of a loop that has come to rest. -/
def restedQueue (w : Worker) : TimerQueue Message :=
  if w.loop.idleArmed then
    if w.keepAlive.isHeld then (removeIdle w.loop).queue
    else (removeIdle w.loop).queue.insert (Instant.after w.now w.config.idleTimeout) .idle
  else w.loop.queue

theorem handle_eq (w : Worker) (e : TimerQueue.Entry Message) :
    ∃ journal, w.handle e = { w with loop := handledLoop w.loop e.item, journal } := by
  obtain ⟨due, number, item⟩ := e
  cases item with
  | idle =>
    unfold handle
    dsimp only
    split <;> exact ⟨_, rfl⟩
  | _ => exact ⟨_, rfl⟩

theorem setIdleTimer_eq (w : Worker) :
    ∃ journal, w.setIdleTimer =
      { w with loop := { w.loop with queue := w.restedQueue }, journal } := by
  unfold setIdleTimer restedQueue
  cases w.loop.idleArmed with
  | false => exact ⟨_, rfl⟩
  | true => cases w.keepAlive.isHeld <;> exact ⟨_, rfl⟩

theorem askForStop_eq (w : Worker) :
    ∃ journal, w.askForStop = { w with loop := { w.loop with stopArmed := false }, journal } := by
  unfold askForStop
  cases hs : w.loop.stopArmed with
  | true =>
    rw [if_pos rfl]
    dsimp only
    split <;> exact ⟨_, rfl⟩
  | false =>
    have hsame : { w.loop with stopArmed := false } = w.loop := by rw [← hs]
    rw [hsame]
    exact ⟨_, rfl⟩

theorem comeToRest_eq (w : Worker) :
    ∃ journal, w.comeToRest = { w with
      loop := { w.loop with queue := w.restedQueue, dirty := false, stopArmed := false }
      journal } := by
  obtain ⟨journal, hset⟩ := setIdleTimer_eq (w.withLoop { w.loop with dirty := false })
  unfold comeToRest
  rw [hset]
  exact askForStop_eq _

/-- The loop takes in its letters; then it exits, handles what is due, comes to rest or blocks. -/
inductive Goes (w : Worker) : Worker → Prop
  | exits (hq : (takeInAll w.loop).quitting = true) :
      Goes w (w.withLoop (takeInAll w.loop)).exitLoop
  | handles (e : TimerQueue.Entry Message) (queue : TimerQueue Message) (journal : List JournalEntry)
      (hq : (takeInAll w.loop).quitting = false)
      (hpop : (takeInAll w.loop).queue.popDue w.now = (some e, queue)) :
      Goes w { w with loop := handledLoop { takeInAll w.loop with queue } e.item, journal }
  | rests (journal : List JournalEntry) (hq : (takeInAll w.loop).quitting = false)
      (hpop : ((takeInAll w.loop).queue.popDue w.now).1 = none) (hd : w.loop.dirty = true) :
      Goes w { w with
        loop := { takeInAll w.loop with
          queue := (w.withLoop (takeInAll w.loop)).restedQueue, dirty := false, stopArmed := false }
        journal }
  | blocks (hq : (takeInAll w.loop).quitting = false)
      (hpop : ((takeInAll w.loop).queue.popDue w.now).1 = none) (hd : w.loop.dirty = false) :
      Goes w (w.withLoop (takeInAll w.loop))

theorem iterate_goes (h : w.Watched) : Goes w w.iterate := by
  have hdirty := h.tidy.takeInAll.2.dirty
  unfold iterate
  dsimp only
  split
  · rename_i hq
    exact .exits hq
  · rename_i hq
    have hgoing := Bool.eq_false_iff.mpr hq
    split
    · rename_i e queue hpop
      obtain ⟨journal, he⟩ := handle_eq
        ((w.withLoop (takeInAll w.loop)).withLoop { takeInAll w.loop with queue }) e
      exact he ▸ .handles e queue journal hgoing hpop
    · rename_i hpop
      have hnone := congrArg Prod.fst hpop
      split
      · rename_i hd
        obtain ⟨journal, he⟩ := comeToRest_eq (w.withLoop (takeInAll w.loop))
        exact he ▸ .rests journal hgoing hnone (hdirty.symm.trans hd)
      · rename_i hd
        exact .blocks hgoing hnone (hdirty.symm.trans (Bool.eq_false_iff.mpr hd))

theorem takeInAll_of_nil {l : Loop} (h : l.mailbox.letters = []) : takeInAll l = l := by
  unfold takeInAll
  rw [h, List.foldl_nil, ← h]

/-! ## Spinning -/

/-- The loop has nothing left to do but to set its idle timer, which is due as soon as it is set,
and to handle it. -/
structure Spins (w : Worker) : Prop where
  timeout : w.config.idleTimeout = .zero
  free : w.loopFree = true
  unhindered : (w.gateOpen || !w.loop.stopArmed) = true
  letters : w.loop.mailbox.letters = []
  going : w.loop.quitting = false
  armed : w.loop.idleArmed = true
  unheld : w.keepAlive.isHeld = false
  only : ∀ e ∈ w.loop.queue.entries, e.due ≤ w.now → e.item.isIdle = true
  hot : w.loop.dirty = true ∨ ∃ e ∈ w.loop.queue.entries, e.due ≤ w.now

namespace Spins

theorem step_iterate (h : w.Spins) : w.step .iterate = some w.iterate := by
  have hboth : (w.loopFree && (w.gateOpen || !w.loop.stopArmed)) = true := by
    rw [h.free, h.unhindered]
    rfl
  exact if_pos hboth

theorem not_resting (h : w.Spins) : w.resting = false := by
  refine Bool.eq_false_iff.mpr fun hr => ?_
  simp only [resting, Bool.and_eq_true, Bool.not_eq_true', List.any_eq_false,
    decide_eq_true_eq] at hr
  rcases h.hot with hd | ⟨e, he, hdue⟩
  · cases hr.1.2.symm.trans hd
  · exact hr.2 e he hdue

/-- Whatever comes to rest with a timer that is due at once spins from then on. -/
theorem of_rests (h : w.Watched) (hzero : w.config.idleTimeout = .zero)
    (hfree : w.loopFree = true) (hletters : w.loop.mailbox.letters = [])
    (hq : w.loop.quitting = false) (harmed : w.loop.idleArmed = true)
    (hheld : w.keepAlive.isHeld = false) (hpop : (w.loop.queue.popDue w.now).1 = none)
    (journal : List JournalEntry) :
    Spins { w with
      loop := { w.loop with queue := w.restedQueue, dirty := false, stopArmed := false }
      journal } := by
  have hlate := h.tidy.sound.lt_due_of_popDue hpop
  have hqueue : w.restedQueue = (removeIdle w.loop).queue.insert w.now .idle := by
    rw [restedQueue, if_pos harmed, if_neg (Bool.eq_false_iff.mp hheld), hzero,
      Instant.after_zero h.room]
  have hmem : ∀ e, e ∈ w.restedQueue.entries ↔
      e = ⟨w.now, (removeIdle w.loop).queue.last + 1, .idle⟩ ∨
        e ∈ (removeIdle w.loop).queue.entries := fun e => by
    rw [hqueue]
    exact (h.tidy.sound.removeAll Message.isIdle).mem_insert
  refine ⟨hzero, hfree, Bool.or_true _, hletters, hq, harmed, hheld, fun e he hdue => ?_,
    .inr ⟨_, (hmem _).mpr (.inl rfl), Nat.le_refl _⟩⟩
  rcases (hmem e).mp he with rfl | he
  · rfl
  · exact absurd hdue (Nat.not_le.mpr (hlate e (List.mem_filter.mp he).1))

theorem iterate (h : w.Spins) (hw : w.Watched) : w.iterate.Spins := by
  have hsame := takeInAll_of_nil h.letters
  have hgoes := iterate_goes hw
  generalize w.iterate = v at hgoes
  cases hgoes with
  | exits hq =>
    rw [hsame, h.going] at hq
    cases hq
  | handles e queue journal _ hpop =>
    rw [hsame] at hpop ⊢
    obtain ⟨hentries, _, hdue⟩ := TimerQueue.popDue_eq_some hpop
    have hidle : e.item = .idle := by
      have hi := h.only e (hentries ▸ List.mem_cons_self) hdue
      cases hitem : e.item <;> rw [hitem] at hi <;> first | rfl | cases hi
    rw [hidle]
    exact ⟨h.timeout, h.free, h.unhindered, h.letters, h.going, h.armed, h.unheld,
      fun f hf => h.only f (hentries ▸ List.mem_cons_of_mem e hf), .inl rfl⟩
  | rests journal _ hpop =>
    have hloop : w.withLoop (takeInAll w.loop) = w := congrArg w.withLoop hsame
    rw [hsame] at hpop
    rw [hloop, hsame]
    exact .of_rests hw h.timeout h.free h.letters h.going h.armed h.unheld hpop journal
  | blocks _ hpop hd =>
    rw [hsame] at hpop
    rcases h.hot with hdirty | ⟨e, he, hdue⟩
    · cases hd.symm.trans hdirty
    · exact absurd hdue (Nat.not_le.mpr (hw.tidy.sound.lt_due_of_popDue hpop e he))

end Spins

end Outbox.Worker
