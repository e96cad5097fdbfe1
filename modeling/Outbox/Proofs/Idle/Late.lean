import Mathlib.Data.List.Induction
import Outbox.Proofs.Executors.Roster
import Outbox.Proofs.Idle.Window

/-! # A loop that is late

The loop hears of a hold by a message that takes its turn by its due time, and nothing looks at the
count when an idle timer goes off. So a hold is in time for every timer that is not due yet when it
comes; a timer that the loop is late for goes off all the same. Main statement:
`fully_idle_while_held`, this is the only way in which a held worker signals that it is fully
idle, and the next round after a hold does so exactly if it would have without the hold. -/
namespace Outbox
set_option autoImplicit false

namespace Vigil
variable {c d : Vigil}

/-- The loop will have heard that it is held before any timer can go off. -/
structure Hushed (c : Vigil) : Prop where
  settled : c.settled = false
  guarded : ∀ e ∈ c.timers, ∃ k ∈ c.controls, k.control = .disarm ∧ k.due < e.due

/-- A loop that quits or does not run lets no timer go off. -/
def Hush (c : Vigil) : Prop := c.stage = .running → c.asked = false → c.Hushed

namespace Hushed

theorem tell (h : c.Hushed) (ks : List Instruction) (hks : ∀ k ∈ ks, k.control ≠ .arm)
    (keepAlive : KeepAlive) (idle : Bool) (marks : Nat) (marked : Bool) :
    Hushed { c with keepAlive, controls := c.controls ++ ks, idle, marks, marked } := by
  refine ⟨?_, fun e he => ?_⟩
  · have hfold : ∀ ks : List Instruction, (∀ k ∈ ks, k.control ≠ .arm) →
        ks.foldl settle false = false := by
      intro ks
      induction ks with
      | nil => exact fun _ => rfl
      | cons k ks ih =>
        intro hks
        obtain ⟨hk, hks⟩ := List.forall_mem_cons.mp hks
        have hone : settle false k = false := by
          unfold settle
          cases hc : k.control with
          | arm => exact absurd hc hk
          | disarm | stop => rfl
        rw [List.foldl_cons, hone]
        exact ih hks
    have hsettled : c.controls.foldl settle c.idleArmed = false := h.settled
    change (c.controls ++ ks).foldl settle c.idleArmed = false
    rw [List.foldl_append, hsettled]
    exact hfold ks hks
  · obtain ⟨k, hk, hguard⟩ := h.guarded e he
    exact ⟨k, List.mem_append_left _ hk, hguard⟩

theorem hold (h : c.Hushed) : c.hold.Hushed := by
  have hkind : ∀ k ∈ c.words .disarm, k.control ≠ .arm := fun k hk =>
    (of_mem_words hk).1 ▸ Control.noConfusion
  exact h.tell _ hkind c.keepAlive.hold c.idle c.marks c.marked

/-- A release that leaves something held is not sent. -/
theorem release (h : c.Hushed) (hheld : c.keepAlive.release.isHeld = true) : c.release.Hushed := by
  have hsame : (c.controls ++ if c.keepAlive.release.isHeld then [] else c.words .arm) =
      c.controls := by
    rw [if_pos hheld, List.append_nil]
  refine ⟨?_, ?_⟩
  · change (c.controls ++ if c.keepAlive.release.isHeld then [] else c.words .arm).foldl settle
      c.idleArmed = false
    rw [hsame]
    exact h.settled
  · intro e he
    obtain ⟨k, hk, hguard⟩ := h.guarded e he
    exact ⟨k, List.mem_append_left _ hk, hguard⟩

theorem obey (h : c.Hushed) {k : Instruction} {rest : List Instruction}
    (hk : c.controls = k :: rest) : (c.obey rest k.control).Hushed := by
  have hsettled := (settled_obey hk).trans h.settled
  obtain ⟨due, control⟩ := k
  cases control with
  | arm | disarm => exact ⟨hsettled, List.forall_mem_nil _⟩
  | stop =>
    refine ⟨hsettled, fun e he => ?_⟩
    obtain ⟨j, hj, hdisarm, hdue⟩ := h.guarded e he
    rw [hk] at hj
    rcases List.mem_cons.mp hj with rfl | hj
    · cases hdisarm
    · exact ⟨j, hj, hdisarm, hdue⟩

/-- A loop that has handled all that it was told has no timer and sets none. -/
theorem rest (h : c.Hushed) (hk : c.controls = []) (e : TimerQueue.Entry Message) :
    (c.rest e).Hushed := by
  have hsettled := h.settled
  rw [Vigil.settled, hk, List.foldl_nil] at hsettled
  have hnone : c.timers = [] := by
    refine List.eq_nil_iff_forall_not_mem.mpr fun f hf => ?_
    obtain ⟨k, hmem, _⟩ := h.guarded f hf
    rw [hk] at hmem
    cases hmem
  have htimers : (c.rest e).timers = [] := by
    change (if c.idleArmed then if c.keepAlive.isHeld then [] else [e] else c.timers) = []
    rw [hsettled, hnone]
    rfl
  exact ⟨h.settled, htimers ▸ List.forall_mem_nil _⟩

/-- The word that disarms a timer is due before the timer, so it is handled first. -/
theorem not_due (h : c.Hushed) {e : TimerQueue.Entry Message}
    {rest : List (TimerQueue.Entry Message)} (he : c.timers = e :: rest) :
    ¬ ∀ k ∈ c.controls, e.due ≤ k.due := by
  intro hfirst
  obtain ⟨k, hk, _, hdue⟩ := h.guarded e (he ▸ List.mem_cons_self)
  exact Nat.not_lt_of_le (hfirst k hk) hdue

theorem round (h : c.Hushed) (hd : c.Round d) (hs : d.stage = .running) : d.Hushed := by
  cases hd with
  | close => cases hs
  | serve => exact ⟨h.settled, List.forall_mem_nil _⟩
  | obey k rest _ hk => exact h.obey hk
  | ring e rest _ he _ hfirst => exact absurd hfirst (h.not_due he)
  | rest e _ hk => exact h.rest hk e
  | block => exact h

end Hushed

theorem Hush.move (hc : c.Kept) (h : c.Hush) (hm : c.Move d) (hd : d.keepAlive.isHeld = true) :
    d.Hush := by
  intro hs hq
  cases hm with
  | still => exact h hs hq
  | wait | push | accept | hand | leave => exact { h hs hq with }
  | hold | launch => exact { (h hs hq).hold with }
  | release | free => exact { (h hs hq).release hd with }
  | launchNone => exact { (h hs hq).hold.release hd with }
  | mark =>
    exact (h hs hq).tell _ (fun k hk => (of_mem_words hk).1 ▸ Control.noConfusion) _ _ _ _
  | silence =>
    cases hq.symm.trans (hc.asked_silence hs)
  | renew s _ _ hto => exact absurd hs hto
  | climb s _ _ hto => exact absurd hs hto
  | prepare hprep =>
    have hn : c.stage ≠ .running := fun hr => Stage.noConfusion (hprep.symm.trans hr)
    have hheld : c.keepAlive.isHeld = true := hd
    refine ⟨?_, fun e he => ?_⟩
    · change c.controls.foldl settle (!c.keepAlive.isHeld) = false
      rw [hc.told_nothing hn, hheld]
      rfl
    · have he : e ∈ c.timers := he
      rw [hc.no_timer hn] at he
      cases he
  | round hrun _ hround =>
    cases hasked : c.asked with
    | false => exact (h hrun hasked).round hround hs
    | true =>
      obtain rfl := hround.of_asked hasked
      cases hs

/-- A hold is in time for the timers that are not due yet. -/
theorem hush_hold (hc : c.Kept) (hlate : ∀ e ∈ c.timers, c.now < e.due) : c.hold.Hush := by
  intro hs hq
  have hin := hc.installed_of_running hs hq
  have hwords : c.words .disarm = [⟨c.now, .disarm⟩] := if_pos hin
  refine ⟨?_, fun e he => ?_⟩
  · change (c.controls ++ c.words .disarm).foldl settle c.idleArmed = false
    rw [hwords, List.foldl_append]
    rfl
  · refine ⟨⟨c.now, .disarm⟩, List.mem_append_right _ ?_, rfl, hlate e he⟩
    rw [hwords]
    exact List.mem_singleton_self _

/-- The move that takes the count away from zero is a hold. -/
theorem hush_of_move (hc : c.Kept) (hm : c.Move d) (hfree : c.keepAlive.isHeld = false)
    (hd : d.keepAlive.isHeld = true) (hlate : ∀ e ∈ c.timers, c.now < e.due) : d.Hush := by
  have hsame : d.keepAlive ≠ c.keepAlive := fun he =>
    Bool.noConfusion (hfree.symm.trans (he ▸ hd))
  have hreleased : d.keepAlive ≠ c.keepAlive.release := fun he =>
    Bool.noConfusion (hfree.symm.trans (KeepAlive.isHeld_of_release (he ▸ hd)))
  cases hm with
  | hold => exact hush_hold hc hlate
  | launch => exact fun hs hq => { hush_hold hc hlate hs hq with }
  | release | free => exact absurd rfl hreleased
  | launchNone =>
    have hnone : c.keepAlive.count.toNat = 0 :=
      Nat.eq_zero_of_not_pos fun hpos => Bool.noConfusion (hfree.symm.trans (KeepAlive.isHeld_iff.mpr hpos))
    exact absurd (KeepAlive.release_hold (hnone ▸ by decide)) hsame
  | round _ _ hround =>
    refine absurd ?_ hsame
    cases hround with
    | obey k => cases k.control <;> rfl
    | _ => rfl
  | _ => exact absurd rfl hsame

end Vigil

namespace Worker
variable {config : Config} {w v x y : Worker} {ls : List Label} {l : Label}

/-- In this run something was held that found nothing held before it and a timer due already, and
something is held ever since. -/
def HeldLate (config : Config) (ls : List Label) : Prop :=
  ∃ ms ns w v, ls = ms ++ .hold :: ns ∧ (create config 0).steps ms = some w ∧
    w.step .hold = some v ∧ w.keepAlive.isHeld = false ∧
    (∀ ks, ks <+: ns → ∀ u ∈ v.steps ks, u.keepAlive.isHeld = true) ∧
    ∃ e ∈ w.loop.timers, e.due ≤ w.now

theorem HeldLate.snoc (h : HeldLate config ls) (hs : (create config 0).steps (ls ++ [l]) = some x)
    (hx : x.keepAlive.isHeld = true) : HeldLate config (ls ++ [l]) := by
  obtain ⟨ms, ns, w, v, rfl, hw, hv, hfree, hheld, hdue⟩ := h
  refine ⟨ms, ns ++ [l], w, v, by rw [List.append_assoc, List.cons_append], hw, hv, hfree, ?_,
    hdue⟩
  intro ks hks u hu
  rcases List.prefix_concat_iff.mp hks with rfl | hks
  · have hrun : (create config 0).steps (ms ++ .hold :: ns ++ [l]) = v.steps (ns ++ [l]) := by
      rw [List.append_assoc, steps_append, hw, List.cons_append]
      change w.steps (.hold :: (ns ++ [l])) = _
      rw [steps_cons, hv]
      rfl
    obtain rfl := Option.some.inj ((hrun.symm.trans hs).symm.trans hu)
    exact hx
  · exact hheld ks hks u hu

/-- Callers and launched executors hold a worker, and a job is launched by a loop without timers. -/
theorem hold_of_held (h : Reachable config w) (hs : w.step l = some v)
    (hfree : w.keepAlive.isHeld = false) (hv : v.keepAlive.isHeld = true)
    (htimers : w.loop.timers ≠ []) : l = .hold := by
  have hkept : v.keepAlive ≠ w.keepAlive := fun he =>
    Bool.noConfusion (hfree.symm.trans (he ▸ hv))
  have hreleased : v.keepAlive ≠ w.keepAlive.release := fun he =>
    Bool.noConfusion (hfree.symm.trans (KeepAlive.isHeld_of_release (he ▸ hv)))
  have hm := step_roster (owned h) hs
  generalize hb : v.roster = b at hm
  have hcount : b.keepAlive = v.keepAlive := hb ▸ rfl
  cases hm with
  | hold => rfl
  | stay | cancel | clear => exact absurd hcount.symm hkept
  | skip =>
    have hnone : w.keepAlive.count.toNat = 0 := Nat.eq_zero_of_not_pos fun hpos =>
      Bool.noConfusion (hfree.symm.trans (KeepAlive.isHeld_iff.mpr hpos))
    have hlt : w.keepAlive.count.toNat + 1 < UInt64.size := by
      rw [hnone]
      decide
    exact absurd (hcount.symm.trans (KeepAlive.release_hold hlt)) hkept
  | release | vacate => exact absurd hcount.symm hreleased
  | seat view =>
    obtain ⟨job, hp, _⟩ := dispatch_of_step hs
    have hbusy : w.vigil.busy = true := Bool.or_eq_true_iff.mpr (.inl (hp ▸ rfl))
    exact absurd ((vigil_kept h).calm hbusy) htimers

theorem hush_or_late (hs : (create config 0).steps ls = some x) (hx : x.keepAlive.isHeld = true) :
    x.vigil.Hush ∨ HeldLate config ls := by
  induction ls using List.reverseRecOn generalizing x with
  | nil =>
    cases hs
    exact .inl nofun
  | append_singleton ls l ih =>
    obtain ⟨u, hu, hl⟩ := steps_concat_eq_some.mp hs
    have hr : Reachable config u := ⟨ls, hu⟩
    have hkept := vigil_kept hr
    have hm := vigil_move hr hl
    cases hheld : u.keepAlive.isHeld with
    | true =>
      rcases ih hu hheld with hhush | hlate
      · exact .inl (hhush.move hkept hm hx)
      · exact .inr (hlate.snoc hs hx)
    | false =>
      by_cases hdue : ∃ e ∈ u.loop.timers, e.due ≤ u.now
      · obtain ⟨e, he, hle⟩ := hdue
        obtain rfl := hold_of_held hr hl hheld hx (List.ne_nil_of_mem he)
        refine .inr ⟨ls, [], u, x, rfl, hu, hl, hheld, fun ks hks z hz => ?_, e, he, hle⟩
        obtain rfl := List.prefix_nil.mp hks
        cases hz
        exact hx
      · exact .inl (Vigil.hush_of_move hkept hm hheld hx fun e he =>
          Nat.lt_of_not_le fun hle => hdue ⟨e, he, hle⟩)

/-! ## The round after a hold -/

/-- What a round handles first. -/
def next? (w : Worker) : Option (TimerQueue.Entry Message) :=
  if (takeInAll w.loop).quitting then none else ((takeInAll w.loop).queue.popDue w.now).1

theorem signals_comeToRest (h : w.Watched) :
    w.comeToRest.signals = w.signals ∨ w.comeToRest.signals = .stopIfIdle :: w.signals := by
  have hsignals : w.comeToRest.signals =
      if w.loop.stopArmed && w.idle then .stopIfIdle :: w.signals else w.signals :=
    congrArg Vigil.signals (shows_comeToRest h).vigil
  rw [hsignals]
  split
  · exact .inr rfl
  · exact .inl rfl

theorem gives_fullyIdle_iff (h : w.Watched) :
    Gives .fullyIdle w w.iterate ↔
      w.pushId.isSome = true ∧ ∃ e, w.next? = some e ∧ e.item.isIdle = true := by
  have hwatched := h.takeInAll
  have hnever : ∀ {v : Worker}, v.signals = w.signals ∨ v.signals = .stopIfIdle :: w.signals →
      ¬ Gives .fullyIdle w v := fun hv hgives => by cases Vigil.eq_of_count_lt hv hgives
  unfold iterate next?
  generalize hv : w.withLoop (takeInAll w.loop) = v at hwatched
  have hloop : takeInAll w.loop = v.loop := hv ▸ rfl
  obtain ⟨hsignals, hpush, hnow⟩ : v.signals = w.signals ∧ v.pushId = w.pushId ∧ v.now = w.now :=
    hv ▸ ⟨rfl, rfl, rfl⟩
  rw [hloop, ← hnow]
  dsimp only
  split
  · refine iff_of_false (hnever (.inl hsignals)) ?_
    rintro ⟨_, e, he, _⟩
    cases he
  · split
    · rename_i e queue hpop
      have hhandle : ((v.withLoop { v.loop with queue }).handle e).signals =
          if e.item.isIdle && v.pushId.isSome then .fullyIdle :: v.signals else v.signals :=
        congrArg Vigil.signals (vigil_handle _ e)
      rw [hpop, Gives, hhandle, hsignals, hpush]
      cases hi : e.item.isIdle <;> cases w.pushId.isSome <;> simp [hi]
    · rename_i hpop
      rw [hpop]
      refine iff_of_false (hnever ?_) ?_
      · rw [← hsignals]
        split
        · exact signals_comeToRest hwatched
        · exact .inl rfl
      · rintro ⟨_, e, he, _⟩
        cases he

theorem takeIn_boxed (l : Loop) (letter : Letter Message) (rest : List (Letter Message)) :
    takeIn (boxed l rest) letter = boxed (takeIn l letter) rest := by
  obtain ⟨due, message⟩ := letter
  cases message <;> rfl

theorem foldl_takeIn_boxed (letters : List (Letter Message)) (l : Loop)
    (rest : List (Letter Message)) :
    letters.foldl takeIn (boxed l rest) = boxed (letters.foldl takeIn l) rest := by
  induction letters generalizing l with
  | nil => rfl
  | cons letter letters ih => rw [List.foldl_cons, takeIn_boxed, ih, List.foldl_cons]

theorem takeInAll_snoc (l : Loop) (letter : Letter Message) :
    takeInAll (boxed l (l.mailbox.letters ++ [letter])) = boxed (takeIn (takeInAll l) letter) [] := by
  unfold takeInAll
  change boxed ((l.mailbox.letters ++ [letter]).foldl takeIn (boxed l _)) [] = _
  rw [foldl_takeIn_boxed, List.foldl_append]
  exact (congrArg (boxed · []) (takeIn_boxed _ letter [])).symm

theorem next?_hold (h : w.Watched) :
    w.hold.next? = w.next? ∨
      (w.next? = none ∧ ∃ e, w.hold.next? = some e ∧ e.item.isIdle = false) := by
  cases hi : w.installed with
  | false =>
    have hhold : w.hold = { w with keepAlive := w.keepAlive.hold } :=
      if_neg (Bool.eq_false_iff.mp hi)
    rw [hhold]
    exact .inl rfl
  | true =>
    have hnow : w.hold.now = w.now := congrArg Vigil.now (shows_hold h).vigil
    have hopen := Bool.eq_false_iff.mp (h.opened hi)
    have hloop : w.hold.loop =
        boxed w.loop (w.loop.mailbox.letters ++ [⟨w.now, .disarmIdle⟩]) := by
      have hpost : w.hold.loop =
          { w.loop with mailbox := (w.loop.mailbox.post w.now .disarmIdle .zero).2 } := by
        rw [hold, notify_eq]
        exact if_pos hi
      rw [hpost, Mailbox.post, if_neg hopen, Instant.after_zero h.room]
      rfl
    have hnext : w.hold.next? = if (takeInAll w.loop).quitting then none else
        ((takeInAll w.loop).queue.popDue w.now).1.or
          (some ⟨w.now, (takeInAll w.loop).queue.last + 1, .disarmIdle⟩) := by
      rw [next?, hloop, takeInAll_snoc, hnow, ← h.tidy.takeInAll.1.sound.popDue_insert]
      rfl
    rw [hnext, next?]
    split
    · exact .inl rfl
    · cases ((takeInAll w.loop).queue.popDue w.now).1 with
      | some e => exact .inl rfl
      | none => exact .inr ⟨rfl, _, rfl, rfl⟩

theorem rounds_hold (w : Worker) :
    (w.hold.loopFree && (w.hold.gateOpen || !w.hold.loop.stopArmed)) =
      (w.loopFree && (w.gateOpen || !w.loop.stopArmed)) := by
  rw [hold, notify_eq]
  cases w.installed <;> rfl

theorem iterate_iff {P : Worker → Prop} :
    (∃ y, w.step .iterate = some y ∧ P y) ↔
      (w.loopFree && (w.gateOpen || !w.loop.stopArmed)) = true ∧ P w.iterate := by
  simp only [step]
  split
  · rename_i hg
    simp [hg]
  · rename_i hg
    simp [hg]

/-- A held worker signals that it is fully idle only if a timer was due already when the hold came
that took the count away from zero. The next round after a hold signals it exactly if it would have
without the hold. -/
theorem fully_idle_while_held :
    (∀ {ls x l y}, (create config 0).steps ls = some x → x.step l = some y →
      x.keepAlive.isHeld = true → Gives .fullyIdle x y → HeldLate config ls) ∧
    (∀ {w v}, Reachable config w → w.step .hold = some v →
      ((∃ y, v.step .iterate = some y ∧ Gives .fullyIdle v y) ↔
        ∃ y, w.step .iterate = some y ∧ Gives .fullyIdle w y)) := by
  refine ⟨fun {ls x l y} hs hl hx hgives => ?_, fun {w v} h hv => ?_⟩
  · have hr : Reachable config x := ⟨ls, hs⟩
    have hkept := vigil_kept hr
    obtain ⟨e, rest, _, hq, he, _, hfirst, _⟩ := (vigil_move hr hl).announced.of_fullyIdle hgives
    refine (hush_or_late hs hx).resolve_left fun hhush => ?_
    have hrunning : x.vigil.stage = .running := by
      by_cases hrun : x.vigil.stage = .running
      · exact hrun
      · cases (hkept.no_timer hrun).symm.trans he
    exact (hhush hrunning hq).not_due he hfirst
  · have hwatched := (watched_kept (h.step hv)).1
    cases hv
    have hpush : w.hold.pushId.isSome = w.pushId.isSome :=
      congrArg Vigil.pushed (shows_hold (watched_kept h).1).vigil
    rw [iterate_iff, iterate_iff, rounds_hold, gives_fullyIdle_iff hwatched,
      gives_fullyIdle_iff (watched_kept h).1, hpush]
    rcases next?_hold (watched_kept h).1 with hsame | ⟨hnone, e, he, hidle⟩
    · rw [hsame]
    · rw [hnone, he]
      simp [hidle]

/-- The loop sleeps over the end of the timeout. -/
def overslept : List Label :=
  opening ++ [.setPushId (some "token"), .iterate, .tick (.ofMillis 60000)]

theorem fully_idle_beside_hold :
    ∃ w x y, (create {} 0).steps overslept = some w ∧ w.step .hold = some x ∧
      x.step .iterate = some y ∧ x.keepAliveCount = 1 ∧ Gives .fullyIdle x y ∧
      HeldLate {} (overslept ++ [.hold]) ∧
      ∃ z, w.step .iterate = some z ∧ Gives .fullyIdle w z := by
  have h : ∃ w x y, (create {} 0).steps overslept = some w ∧ w.step .hold = some x ∧
      x.step .iterate = some y ∧ x.keepAliveCount = 1 ∧ x.keepAlive.isHeld = true ∧
      Gives .fullyIdle x y := ⟨_, _, _, rfl, rfl, rfl, rfl, rfl, by decide⟩
  obtain ⟨w, x, y, hs, hx, hl, hone, hheld, hgives⟩ := h
  exact ⟨w, x, y, hs, hx, hl, hone, hgives,
    fully_idle_while_held.1 (steps_concat_eq_some.mpr ⟨w, hs, hx⟩) hl hheld hgives,
    (fully_idle_while_held.2 ⟨overslept, hs⟩ hx).mp ⟨y, hl, hgives⟩⟩

end Worker

end Outbox
