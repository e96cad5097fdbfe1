import Mathlib.Data.List.Induction
import Mathlib.Data.List.Infix
import Outbox.Proofs.Idle.Steps

/-! # The idle timer

The keep-alive count changes at once, and the loop hears of it later. What the loop will have heard
when it has handled all that it is told agrees with the count, as long as no hold takes the count
from its greatest value back to zero. Main statement: `idle_timer_matches_holds`, so a loop about to
block has its timer set exactly if nothing holds the worker. -/
namespace Outbox
set_option autoImplicit false

namespace Vigil

/-- The count does not start again at zero. -/
def StaysCounted (c d : Vigil) : Prop :=
  c.keepAlive.count.toNat + 1 = UInt64.size → d.keepAlive.isHeld = true

/-- What the loop will have heard agrees with the count, and whoever was at rest has set the timer
that is armed. -/
structure Agrees (c : Vigil) : Prop where
  settled : c.installed = true → c.settled = !c.keepAlive.isHeld
  timed : c.stage = .running → c.dirty = false → c.idleArmed = true → c.timers ≠ []

namespace Agrees
variable {c d : Vigil}

theorem hold (h : c.Agrees) (hw : c.StaysCounted c.hold) : c.hold.Agrees := by
  have hheld : c.keepAlive.hold.isHeld = true := by
    have hlt : c.keepAlive.count.toNat < UInt64.size := c.keepAlive.count.toNat_lt_size
    rcases Nat.lt_or_eq_of_le (Nat.succ_le_of_lt hlt) with hroom | hfull
    · refine KeepAlive.isHeld_iff.mpr ?_
      rw [KeepAlive.toNat_hold hroom]
      exact Nat.succ_pos _
    · exact hw hfull
  refine { h with settled := fun hi => ?_ }
  have hi : c.installed = true := hi
  change (c.controls ++ c.words .disarm).foldl settle c.idleArmed = !c.keepAlive.hold.isHeld
  rw [words, if_pos hi, List.foldl_append, hheld]
  rfl

/-- A release that leaves something held is not sent, and the loop has heard of a hold before. -/
theorem release (h : c.Agrees) : c.release.Agrees := by
  refine { h with settled := fun hi => ?_ }
  have hi : c.installed = true := hi
  change (c.controls ++ if c.keepAlive.release.isHeld then [] else c.words .arm).foldl settle
    c.idleArmed = !c.keepAlive.release.isHeld
  cases hheld : c.keepAlive.release.isHeld with
  | true =>
    have hsettled := h.settled hi
    rw [KeepAlive.isHeld_of_release hheld] at hsettled
    rw [if_pos rfl, List.append_nil]
    exact hsettled
  | false =>
    rw [if_neg Bool.false_ne_true, words, if_pos hi, List.foldl_append]
    rfl

theorem mark (h : c.Agrees) : c.mark.Agrees := by
  refine { h with settled := fun hi => ?_ }
  have hsame : (c.controls ++ c.words .stop).foldl settle c.idleArmed = c.settled := by
    unfold words
    split <;> rw [List.foldl_append] <;> rfl
  exact hsame.trans (h.settled hi)

theorem obey (h : c.Agrees) {k : Instruction} {rest : List Instruction}
    (hk : c.controls = k :: rest) : (c.obey rest k.control).Agrees := by
  have hsettled := settled_obey hk
  obtain ⟨due, control⟩ := k
  refine ⟨fun hi => hsettled.trans ?_, fun _ hclean => ?_⟩
  · cases control <;> exact h.settled hi
  · cases control <;> cases hclean

/-- A loop that comes to rest has handled all that it was told. -/
theorem rest (h : c.Agrees) (hin : c.installed = true) (hk : c.controls = [])
    (e : TimerQueue.Entry Message) : (c.rest e).Agrees := by
  refine { h with timed := fun _ _ harmed => ?_ }
  have harmed : c.idleArmed = true := harmed
  have hsettled := h.settled hin
  rw [Vigil.settled, hk, List.foldl_nil, harmed] at hsettled
  have hfree : c.keepAlive.isHeld = false := by
    cases hheld : c.keepAlive.isHeld with
    | false => rfl
    | true =>
      rw [hheld] at hsettled
      cases hsettled
  change (if c.idleArmed then if c.keepAlive.isHeld then [] else [e] else c.timers) ≠ []
  rw [harmed, hfree]
  exact List.cons_ne_nil _ _

theorem round (hc : c.Kept) (h : c.Agrees) (hs : c.stage = .running) (hd : c.Round d) :
    d.Agrees := by
  cases hd with
  | close => exact ⟨nofun, nofun⟩
  | serve | ring => exact { h with timed := nofun }
  | obey k rest _ hk => exact h.obey hk
  | rest e hq hk => exact h.rest (hc.installed_of_running hs hq) hk e
  | block => exact h

theorem move (hc : c.Kept) (h : c.Agrees) (hm : c.Move d) (hw : c.StaysCounted d) : d.Agrees := by
  have hearly : c.stage ≠ .running → ¬ c.installed = true := fun hs hi =>
    hs (hc.running_of_installed hi)
  cases hm with
  | still => exact h
  | wait | push | accept | hand | leave => exact { h with }
  | hold => exact h.hold hw
  | release => exact h.release
  | mark => exact h.mark
  | silence => exact { h with settled := nofun }
  | renew s busy hfrom => exact ⟨fun hi => absurd hi (hearly hfrom), nofun⟩
  | climb s hfrom _ hto =>
    exact ⟨fun hi => absurd hi (hearly hfrom), fun hs => absurd hs hto⟩
  | prepare hs =>
    have hn : c.stage ≠ .running := fun hr => Stage.noConfusion (hs.symm.trans hr)
    have hdirty := hc.fresh hn fun he => Stage.noConfusion (hs.symm.trans he)
    refine ⟨fun _ => ?_, fun _ hclean => Bool.noConfusion (hclean.symm.trans hdirty)⟩
    change c.controls.foldl settle (!c.keepAlive.isHeld) = _
    rw [hc.told_nothing hn]
    rfl
  | round hs _ hd => exact round hc h hs hd
  | launch => exact { h.hold hw with }
  | launchNone =>
    have hheld : c.StaysCounted c.hold := fun hfull => KeepAlive.isHeld_of_release (hw hfull)
    exact { (h.hold hheld).release with }
  | free => exact { h.release with }

end Agrees

end Vigil

namespace Worker
variable {config : Config} {w : Worker} {ls : List Label}

/-- No step takes the keep-alive count from its greatest value to zero. -/
def NeverWraps (config : Config) (ls : List Label) : Prop :=
  ∀ ms l, ms ++ [l] <+: ls → ∀ u ∈ (create config 0).steps ms, ∀ v ∈ u.step l,
    u.keepAlive.count.toNat + 1 = UInt64.size → v.keepAlive.isHeld = true

theorem agrees_of_steps (hs : (create config 0).steps ls = some w) (hw : NeverWraps config ls) :
    w.vigil.Agrees := by
  induction ls using List.reverseRecOn generalizing w with
  | nil =>
    cases hs
    exact ⟨nofun, nofun⟩
  | append_singleton ls l ih =>
    obtain ⟨u, hu, hl⟩ := steps_concat_eq_some.mp hs
    have hbefore := ih hu fun ms l' hp => hw ms l' (hp.trans (List.prefix_append ls [l]))
    exact hbefore.move (vigil_kept ⟨ls, hu⟩) (vigil_move ⟨ls, hu⟩ hl)
      (hw ls l List.prefix_rfl u hu w hl)

theorem told_nothing_at_rest (h : Reachable config w) (hrest : w.resting = true) :
    w.vigil.asked = false ∧ w.vigil.controls = [] ∧ w.vigil.dirty = false := by
  obtain ⟨hletters, hdue⟩ := resting_facts hrest
  simp only [resting, Bool.and_eq_true, Bool.not_eq_true'] at hrest
  refine ⟨?_, (watched_kept h).1.tidy.told_nothing hletters hdue, hrest.1.2⟩
  change (w.loop.quitting || w.loop.mailbox.letters.any _) = false
  rw [hrest.1.1.2, hletters]
  rfl

/-- In every run there is one idle timer at most, and none while it is disarmed. If the count never
starts again at zero, a loop about to block has one timer exactly if nothing holds the worker. -/
theorem idle_timer_matches_holds (hs : (create config 0).steps ls = some w) :
    w.loop.timers.length ≤ 1 ∧
    (w.loop.idleArmed = false → w.loop.timers = []) ∧
    (NeverWraps config ls → w.loopFree = true → w.resting = true →
      w.loop.timers.length = if w.keepAlive.isHeld then 0 else 1) := by
  have hr : Reachable config w := ⟨ls, hs⟩
  have hkept := vigil_kept hr
  refine ⟨hkept.single, hkept.unarmed, fun hw hfree hrest => ?_⟩
  have hagrees := agrees_of_steps hs hw
  obtain ⟨hrunning, _⟩ := vigil_free hfree
  obtain ⟨hasked, hnone, hclean⟩ := told_nothing_at_rest hr hrest
  have hsettled := hagrees.settled (hkept.installed_of_running hrunning hasked)
  rw [Vigil.settled, hnone, List.foldl_nil] at hsettled
  cases hheld : w.keepAlive.isHeld with
  | true =>
    have hdisarmed : w.vigil.idleArmed = false := hsettled.trans (congrArg (! ·) hheld)
    exact congrArg List.length (hkept.unarmed hdisarmed)
  | false =>
    have harmed : w.vigil.idleArmed = true := hsettled.trans (congrArg (! ·) hheld)
    have hpos := List.length_pos_iff.mpr (hagrees.timed hrunning hclean harmed)
    exact Nat.le_antisymm hkept.single hpos

/-- The loop comes to rest, is held, hears of it, is released, and comes to rest again. -/
def heldForAWhile : List Label :=
  opening ++ [.iterate, .hold, .iterate, .iterate, .release, .iterate, .iterate]

theorem timer_after_release :
    ∃ w, (create {} 0).steps heldForAWhile = some w ∧ w.loopFree = true ∧ w.resting = true ∧
      w.loop.timers.length = 1 := by
  have h : ∃ w, (create {} 0).steps heldForAWhile = some w ∧ w.loopFree = true ∧
      w.resting = true ∧ w.keepAlive.isHeld = false := ⟨_, rfl, rfl, rfl, rfl⟩
  have hcount : ∀ ms ∈ heldForAWhile.inits, ∀ u ∈ (create {} 0).steps ms,
      u.keepAlive.count.toNat + 1 ≠ UInt64.size := by decide
  have hw : NeverWraps {} heldForAWhile := fun ms l hp u hu _ _ hfull =>
    absurd hfull (hcount ms ((List.mem_inits _ _).mpr ((List.prefix_append ms [l]).trans hp)) u hu)
  obtain ⟨w, hs, hfree, hrest, hheld⟩ := h
  have htimers := (idle_timer_matches_holds hs).2.2 hw hfree hrest
  rw [hheld] at htimers
  exact ⟨w, hs, hfree, hrest, htimers⟩

/-- A hold at the greatest count starts it again at zero and disarms the timer, and nothing sets it
while the worker is at rest. -/
theorem wrapped_count_sets_no_timer :
    ∃ w, (create { initialHolds := 18446744073709551615 } 0).steps
        (opening ++ [.iterate, .hold, .iterate, .iterate]) = some w ∧
      w.loopFree = true ∧ w.resting = true ∧ w.keepAliveCount = 0 ∧ w.loop.timers = [] :=
  ⟨_, rfl, rfl, rfl, rfl, rfl⟩

end Worker

end Outbox
