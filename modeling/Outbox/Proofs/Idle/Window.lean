import Mathlib.Data.List.Induction
import Outbox.Proofs.Idle.Steps

/-! # The quiet window

Whatever the loop does for a job or hears of a hold takes the idle timer away, and the timer is set
to go off a whole timeout after the loop came to rest. Main statement: `quiet_before_idle`, so a
timer that goes off ends a whole timeout without any of this. -/
namespace Outbox
set_option autoImplicit false

namespace Vigil
variable {c d : Vigil} {e : TimerQueue.Entry Message} {t : Instant}

/-- A timer is set by a loop that comes to rest while nothing holds the worker. -/
theorem Move.timer (h : c.Move d) (he : e ∈ d.timers) :
    e ∈ c.timers ∨ (e ∉ c.timers ∧ c.keepAlive.isHeld = false ∧
      e.due = Instant.after c.now c.timeout) := by
  cases h with
  | renew => cases he
  | round _ _ hd =>
    cases hd with
    | close | serve => cases he
    | obey k rest =>
      cases hk : k.control with
      | stop =>
        rw [hk] at he
        exact .inl he
      | arm | disarm =>
        rw [hk] at he
        cases he
    | ring f rest _ hf =>
      have he : e ∈ rest := he
      exact .inl (hf ▸ List.mem_cons_of_mem f he)
    | rest f _ _ hdue hnew =>
      have he : e ∈ if c.idleArmed then if c.keepAlive.isHeld then [] else [f] else c.timers := he
      split at he
      · split at he
        · cases he
        · rename_i hheld
          obtain rfl := List.mem_singleton.mp he
          exact .inr ⟨hnew, Bool.eq_false_iff.mpr hheld, hdue⟩
      · exact .inl he
    | block => exact .inl he
  | _ => exact .inl he

/-- No effort is made beside a timer. -/
theorem Move.effort (hc : c.Kept) (h : c.Move d) (ht : t ∈ d.efforts) :
    t ∈ c.efforts ∨ (t = d.now ∧ d.timers = []) := by
  have hcons : t ∈ c.now :: c.efforts → t ∈ c.efforts ∨ t = c.now := fun ht =>
    (List.mem_cons.mp ht).symm
  cases h with
  | round _ _ hd =>
    cases hd with
    | serve => exact (hcons ht).imp_right fun h => ⟨h, rfl⟩
    | obey k rest =>
      cases hk : k.control with
      | stop =>
        rw [hk] at ht
        exact .inl ht
      | arm | disarm =>
        rw [hk] at ht
        exact (hcons ht).imp_right fun h => ⟨h, rfl⟩
    | close | ring | rest | block => exact .inl ht
  | hand _ hb | launch _ hb | launchNone _ hb =>
    exact (hcons ht).imp_right fun h => ⟨h, hc.calm hb⟩
  | _ => exact .inl ht

theorem Move.rung (h : c.Move d) (hr : d.rings = e :: c.rings) : e ∈ c.timers ∧ e.due ≤ c.now := by
  have hne : d.rings ≠ c.rings := fun hsame => List.cons_ne_self e c.rings (hr.symm.trans hsame)
  cases h with
  | round _ _ hd =>
    cases hd with
    | ring f rest _ hf hdue =>
      obtain ⟨rfl, _⟩ := List.cons.inj hr
      exact ⟨hf ▸ List.mem_cons_self, hdue⟩
    | obey k rest => cases hk : k.control <;> rw [hk] at hne <;> exact absurd rfl hne
    | close | serve | rest | block => exact absurd rfl hne
  | _ => exact absurd rfl hne

theorem Announced.of_fullyIdle (h : c.Announced d)
    (hc : c.signals.count .fullyIdle < d.signals.count .fullyIdle) :
    ∃ e rest, c.pushed = true ∧ c.asked = false ∧ c.timers = e :: rest ∧ e.due ≤ c.now ∧
      (∀ k ∈ c.controls, e.due ≤ k.due) ∧ d = c.ring e rest := by
  cases h with
  | idle e rest hp hq he hdue hfirst => exact ⟨e, rest, hp, hq, he, hdue, hfirst, rfl⟩
  | nothing h => cases eq_of_count_lt (s := .stopIfIdle) (.inl h) hc
  | work hi => cases eq_of_count_lt (s := .startKeepAlive) (.inr (if_pos hi)) hc
  | stop f ha hi =>
    cases eq_of_count_lt (s := .stopIfIdle)
      (.inr (if_pos (Bool.and_eq_true_iff.mpr ⟨ha, hi⟩))) hc

/-- No timer goes off before a whole timeout has passed from `t` on. -/
structure QuietFrom (c : Vigil) (t : Instant) : Prop where
  past : t ≤ c.now
  late : ∀ e ∈ c.timers, t + c.timeout.nanos ≤ e.due

theorem QuietFrom.move (h : c.QuietFrom t) (hroom : c.now + c.timeout.nanos < Instant.limit)
    (hm : c.Move d) : d.QuietFrom t := by
  refine ⟨Nat.le_trans h.past hm.now_le, fun e he => ?_⟩
  rw [hm.timeout]
  rcases hm.timer he with he | ⟨_, _, hdue⟩
  · exact h.late e he
  · rw [hdue, Instant.after_eq_add hroom]
    exact Nat.add_le_add_right h.past _

theorem quietFrom_now (h : c.timers = []) : c.QuietFrom c.now :=
  ⟨Nat.le_refl _, h ▸ List.forall_mem_nil _⟩

end Vigil

namespace Worker
variable {config : Config} {w v u : Worker} {ls : List Label} {t : Instant}

theorem room_of_step (h : Reachable config w) {l : Label} (hs : w.step l = some v)
    (hroom : v.now + config.idleTimeout.nanos < Instant.limit) :
    w.now + config.idleTimeout.nanos < Instant.limit :=
  Nat.lt_of_le_of_lt (Nat.add_le_add_right (vigil_move h hs).now_le _) hroom

theorem quietFrom_of_step (h : Reachable config w) {l : Label} (hs : w.step l = some v)
    (hroom : v.now + config.idleTimeout.nanos < Instant.limit) (hq : w.vigil.QuietFrom t) :
    v.vigil.QuietFrom t := by
  refine hq.move ?_ (vigil_move h hs)
  rw [vigil_timeout h]
  exact room_of_step h hs hroom

theorem quietFrom_of_steps (h : Reachable config w) (hs : w.steps ls = some v)
    (hroom : v.now + config.idleTimeout.nanos < Instant.limit) (hq : w.vigil.QuietFrom t) :
    v.vigil.QuietFrom t :=
  h.carry (P := fun u => u.now + config.idleTimeout.nanos < Instant.limit → u.vigil.QuietFrom t)
    hs (fun _ => hq) (fun _ _ _ hr hu hl hroom =>
      quietFrom_of_step hr hl hroom (hu (room_of_step hr hl hroom))) hroom

/-- Every timer was set a whole timeout after the last effort. -/
theorem quietFrom_efforts (h : Reachable config w)
    (hroom : w.now + config.idleTimeout.nanos < Instant.limit) (ht : t ∈ w.efforts) :
    w.vigil.QuietFrom t := by
  refine h.induction (P := fun u => u.now + config.idleTimeout.nanos < Instant.limit →
    t ∈ u.efforts → u.vigil.QuietFrom t) nofun ?_ hroom ht
  intro u l v hr hu hl hroom ht
  rcases (vigil_move hr hl).effort (vigil_kept hr) ht with ht | ⟨rfl, htimers⟩
  · exact quietFrom_of_step hr hl hroom (hu (room_of_step hr hl hroom) ht)
  · exact Vigil.quietFrom_now htimers

/-- Every timer was set by some step, in a state in which nothing held the worker. -/
theorem timer_was_set (hs : (create config 0).steps ls = some w)
    (hroom : w.now + config.idleTimeout.nanos < Instant.limit) {e : TimerQueue.Entry Message}
    (he : e ∈ w.loop.timers) :
    ∃ ms l u u', ms ++ [l] <+: ls ∧ (create config 0).steps ms = some u ∧ u.step l = some u' ∧
      u.keepAliveCount = 0 ∧ e ∉ u.loop.timers ∧ e ∈ u'.loop.timers ∧
      e.due = u.now + config.idleTimeout.nanos := by
  induction ls using List.reverseRecOn generalizing w with
  | nil =>
    cases hs
    cases he
  | append_singleton ls l ih =>
    obtain ⟨u, hu, hl⟩ := steps_concat_eq_some.mp hs
    have hr : Reachable config u := ⟨ls, hu⟩
    have hroom' := room_of_step hr hl hroom
    rcases (vigil_move hr hl).timer he with hold | ⟨hnew, hfree, hdue⟩
    · obtain ⟨ms, l', x, y, hp, hset⟩ := ih hu hroom' hold
      exact ⟨ms, l', x, y, hp.trans (List.prefix_append ls [l]), hset⟩
    · rw [vigil_timeout hr] at hdue
      exact ⟨ls, l, u, w, List.prefix_rfl, hu, hl, bne_eq_false_iff_eq.mp hfree, hnew, he,
        hdue.trans (Instant.after_eq_add hroom')⟩

/-- Whenever an idle timer is handled, a whole timeout has passed since the loop last handled a
request or word of a hold or a release, and since it was last at work on a job; and nothing held the
worker when that timer was set. A worker signals that it is fully idle only then, and only while
push delivery is registered. -/
theorem quiet_before_idle (hs : (create config 0).steps ls = some w)
    (hroom : w.now + config.idleTimeout.nanos < Instant.limit) {l : Label}
    (hl : w.step l = some v) :
    (∀ e, v.rings = e :: w.rings →
      (∀ t ∈ w.efforts, t + config.idleTimeout.nanos ≤ w.now) ∧
      (∀ ms u, ms <+: ls → (create config 0).steps ms = some u → u.busy = true →
        u.now + config.idleTimeout.nanos ≤ w.now) ∧
      ∃ ms l' u u', ms ++ [l'] <+: ls ∧ (create config 0).steps ms = some u ∧
        u.step l' = some u' ∧ u.keepAliveCount = 0 ∧ e ∉ u.loop.timers ∧ e ∈ u'.loop.timers ∧
        e.due = u.now + config.idleTimeout.nanos) ∧
    (Gives .fullyIdle w v → w.pushId.isSome = true ∧ ∃ e, v.rings = e :: w.rings) := by
  have hr : Reachable config w := ⟨ls, hs⟩
  have hm := vigil_move hr hl
  refine ⟨fun e he => ?_, fun hgives => ?_⟩
  · obtain ⟨hmem, hdue⟩ := hm.rung he
    have hpassed : ∀ t, w.vigil.QuietFrom t → t + config.idleTimeout.nanos ≤ w.now := by
      intro t hq
      have hlate := hq.late e hmem
      rw [vigil_timeout hr] at hlate
      exact Nat.le_trans hlate hdue
    refine ⟨fun t ht => hpassed t (quietFrom_efforts hr hroom ht), fun ms u hp hu hbusy => ?_,
      timer_was_set hs hroom hmem⟩
    obtain ⟨ns, rfl⟩ := hp
    rw [steps_append, hu] at hs
    have hcalm := (vigil_kept ⟨ms, hu⟩).calm hbusy
    exact hpassed u.now (quietFrom_of_steps ⟨ms, hu⟩ hs hroom (Vigil.quietFrom_now hcalm))
  · obtain ⟨e, rest, hp, _, _, _, _, hring⟩ := hm.announced.of_fullyIdle hgives
    exact ⟨hp, e, congrArg Vigil.rings hring⟩

/-- A job runs on an executor, and the timer goes off a timeout after the last word of it. -/
def idleAfterWork : List Label :=
  opening ++ [.setPushId (some "token")] ++ launching (blankJob 1) ++ advancing 1 5 ++
    [.iterate, .iterate, .tick (.ofMillis 60000)]

theorem quiet_after_work :
    ∃ w v e, (create {} 0).steps idleAfterWork = some w ∧ w.step .iterate = some v ∧
      v.rings = e :: w.rings ∧ w.efforts ≠ [] ∧
      ∀ t ∈ w.efforts, t + ({} : Config).idleTimeout.nanos ≤ w.now := by
  have h : ∃ w v e, (create {} 0).steps idleAfterWork = some w ∧ w.step .iterate = some v ∧
      v.rings = e :: w.rings ∧ w.efforts ≠ [] ∧
      w.now + ({} : Config).idleTimeout.nanos < Instant.limit :=
    ⟨_, _, _, rfl, rfl, rfl, List.cons_ne_nil _ _, by decide⟩
  obtain ⟨w, v, e, hs, hl, he, hefforts, hroom⟩ := h
  exact ⟨w, v, e, hs, hl, he, hefforts, ((quiet_before_idle hs hroom hl).1 e he).1⟩

end Worker

end Outbox
