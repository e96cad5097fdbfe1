import Mathlib.Data.List.Induction
import Mathlib.Data.List.Infix
import Outbox.Proofs.Executors.Roster

/-! # The keep-alive count

As long as callers release no more than was held for them, the keep-alive count is what they and
the configuration hold, and one for every live executor. Main statement:
`keepAlive_matches_executors`, which says beside it whose tickets are live and whose handles are
canceled. -/
namespace Outbox
set_option autoImplicit false

def holds (ls : List Label) : Nat := ls.countP Label.isHold

def releases (ls : List Label) : Nat := ls.countP Label.isRelease

theorem holds_concat (ls : List Label) (l : Label) :
    holds (ls ++ [l]) = holds ls + l.isHold.toNat := by
  rw [holds, List.countP_append, List.countP_singleton]
  cases l.isHold <;> rfl

theorem releases_concat (ls : List Label) (l : Label) :
    releases (ls ++ [l]) = releases ls + l.isRelease.toNat := by
  rw [releases, List.countP_append, List.countP_singleton]
  cases l.isRelease <;> rfl

namespace Worker

/-- At no time callers have released more often than the configuration and they themselves held,
and at no time more is held than the count can say, not even while an executor is launched. -/
structure Balanced (config : Config) (ls : List Label) : Prop where
  owed : ∀ ms, ms <+: ls → releases ms ≤ config.initialHolds.toNat + holds ms
  room : ∀ ms, ms <+: ls → ∀ v ∈ (create config 0).steps ms,
    config.initialHolds.toNat + holds ms + v.slots.length < UInt64.size + releases ms
  launch : ∀ ms l, ms ++ [l] <+: ls → ∀ u ∈ (create config 0).steps ms, ∀ v ∈ u.step l,
    u.handles.made < v.handles.made →
      config.initialHolds.toNat + holds ms + u.slots.length + 1 < UInt64.size + releases ms

end Worker

namespace Roster
variable {b c : Roster} {l : Label} {ls : List Label} {initial : Nat}

/-- The count is what callers and the configuration hold and one for every live executor. -/
def Counts (b : Roster) (initial : Nat) (ls : List Label) : Prop :=
  b.keepAlive.count.toNat + releases ls = initial + holds ls + b.slots.length

/-- Every release finds something held: a caller's because it is owed, an executor's because the
executor itself is counted. -/
theorem Counts.move (h : b.Counts initial ls) (hm : b.Move l c)
    (howed : releases ls ≤ initial + holds ls)
    (howed' : releases (ls ++ [l]) ≤ initial + holds (ls ++ [l]))
    (hroom : initial + holds (ls ++ [l]) + c.slots.length < UInt64.size + releases (ls ++ [l]))
    (hlaunch : b.handles.made < c.handles.made →
      initial + holds ls + b.slots.length + 1 < UInt64.size + releases ls) :
    c.Counts initial (ls ++ [l]) := by
  have hheld := holds_concat ls l
  have hreleased := releases_concat ls l
  unfold Counts at h ⊢
  cases hm with
  | stay hl =>
    rw [hl.1] at hheld
    rw [hl.2] at hreleased
    rw [hheld, hreleased]
    exact h
  | hold =>
    change _ = _ + 1 at hheld
    change _ = _ + 0 at hreleased
    change _ + b.slots.length < _ at hroom
    have hcount : b.hold.keepAlive.count.toNat = b.keepAlive.count.toNat + 1 :=
      KeepAlive.toNat_hold (by omega)
    change _ = _ + b.slots.length
    omega
  | release =>
    change _ = _ + 0 at hheld
    change _ = _ + 1 at hreleased
    have hcount : b.release.keepAlive.count.toNat = b.keepAlive.count.toNat - 1 :=
      KeepAlive.toNat_release b.keepAlive
    change _ = _ + b.slots.length
    omega
  | cancel | clear =>
    rw [hheld, hreleased]
    exact h
  | seat view name =>
    change _ = _ + 0 at hheld
    change _ = _ + 0 at hreleased
    have hlength : (b.hold.seat name).slots.length = b.slots.length + 1 := List.length_append
    have hcount : (b.hold.seat name).keepAlive.count.toNat = b.keepAlive.count.toNat + 1 :=
      KeepAlive.toNat_hold (by omega)
    omega
  | skip view name =>
    change _ = _ + 0 at hheld
    change _ = _ + 0 at hreleased
    have hroom := hlaunch (Nat.lt_succ_self _)
    have hlt : b.keepAlive.count.toNat + 1 < UInt64.size := by omega
    have hsame : (b.skip name).hold.release.keepAlive = b.keepAlive := KeepAlive.release_hold hlt
    rw [hsame]
    change _ = _ + b.slots.length
    omega
  | vacate run s before after hs =>
    change _ = _ + 0 at hheld
    change _ = _ + 0 at hreleased
    have hcount : (b.vacate s (before ++ after)).release.keepAlive.count.toNat =
        b.keepAlive.count.toNat - 1 := KeepAlive.toNat_release b.keepAlive
    have hlength : b.slots.length = (before ++ after).length + 1 := by
      rw [hs, List.length_append, List.length_append]
      rfl
    change _ = _ + (before ++ after).length
    omega

theorem Counts.pos_of_owed (h : b.Counts initial ls)
    (howed : releases (ls ++ [.release]) ≤ initial + holds (ls ++ [.release])) :
    0 < b.keepAlive.count.toNat := by
  have hheld : holds (ls ++ [.release]) = holds ls + 0 := holds_concat ls .release
  have hreleased : releases (ls ++ [.release]) = releases ls + 1 := releases_concat ls .release
  unfold Counts at h
  omega

theorem Counts.pos_of_live (h : b.Counts initial ls) (howed : releases ls ≤ initial + holds ls)
    (hlive : b.slots ≠ []) : 0 < b.keepAlive.count.toNat := by
  have hpos := List.length_pos_of_ne_nil hlive
  unfold Counts at h
  omega

end Roster

namespace Worker
variable {config : Config} {w v : Worker} {ls ms : List Label}

theorem Balanced.of_prefix (h : Balanced config ls) (hp : ms <+: ls) : Balanced config ms where
  owed ks hk := h.owed ks (hk.trans hp)
  room ks hk := h.room ks (hk.trans hp)
  launch ks l hk := h.launch ks l (hk.trans hp)

theorem roster_counts (hs : (create config 0).steps ls = some w) (hb : Balanced config ls) :
    w.roster.Counts config.initialHolds.toNat ls := by
  induction ls using List.reverseRecOn generalizing w with
  | nil =>
    cases hs
    rfl
  | append_singleton ls l ih =>
    rw [steps_append] at hs
    obtain ⟨u, hu, hl⟩ := Option.bind_eq_some_iff.mp hs
    have hstep : u.step l = some w := (steps_single u l).symm.trans hl
    have hprefix := List.prefix_append ls [l]
    have hcounts := ih hu (hb.of_prefix hprefix)
    refine hcounts.move (step_roster (owned ⟨ls, hu⟩) hstep) (hb.owed ls hprefix)
      (hb.owed _ List.prefix_rfl) (hb.room _ List.prefix_rfl w ?_)
      (hb.launch ls l List.prefix_rfl u hu w hstep)
    rw [steps_append, hu]
    exact hl

theorem step_exit (ho : w.ledger.Owned) {r : Run} (hr : r ∈ w.runs) (hp : r.phase = .exiting) :
    w.step (.advance r.id .none) = some (w.exit r) := by
  rw [step_advance ho hr]
  unfold advanceRun?
  rw [hp]

/-- The last step of an executor takes its own ticket and no other. -/
theorem exit_executor (h : Reachable config w) {r : Run} (hr : r ∈ w.runs) {s : Nat × Handle}
    (hs : r.slot? = some s) : (w.exit r).slots = w.slots.erase s ∧
      (w.exit r).tickets.live = w.tickets.live.erase s ∧
      (w.exit r).keepAlive = w.keepAlive.release := by
  have hsound := roster_sound h
  rcases roster_exit (owned h) hr with ⟨hnone, _⟩ | ⟨s', before, after, hs', hslots, he⟩
  · cases hnone.symm.trans hs
  obtain rfl := Option.some.inj (hs'.symm.trans hs)
  have hn : w.slots.Nodup := hsound.nodup.of_map _
  have hfirst : s' ∉ before := by
    rw [hslots, List.nodup_middle, List.nodup_cons, List.mem_append, not_or] at hn
    exact hn.1.1
  have herase : w.slots.erase s' = before ++ after := by
    rw [hslots, List.erase_append_right _ hfirst, List.erase_cons_head]
  have hleft : (w.exit r).slots = w.slots.erase s' :=
    (congrArg Roster.slots he).trans herase.symm
  have hgone : ((w.roster.vacate s' (before ++ after)).Sound) := hsound.vacate hslots
  refine ⟨hleft, ?_, congrArg Roster.keepAlive he⟩
  have hlive : (w.exit r).tickets.live = (w.roster.vacate s' (before ++ after)).tickets.live :=
    congrArg (fun b => b.tickets.live) he
  rw [hlive]
  cases hi : w.interrupted with
  | true =>
    have hnil : w.tickets.live = [] := hsound.live_nil hi
    rw [hgone.live_nil hi, hnil]
    rfl
  | false =>
    have hall : w.tickets.live = w.slots := hsound.live_eq hi
    rw [hgone.live_eq hi, hall]
    exact herase.symm

/-- A shutdown takes every ticket away and cancels every live executor. -/
theorem shutdown_executors (h : Reachable config w) :
    w.shutdown.slots = w.slots ∧ w.shutdown.tickets.live = [] ∧
      ∀ s ∈ w.slots, w.shutdown.handles.isCanceled s.2 = true := by
  have hsound : w.shutdown.roster.Sound := roster_sound (h.step (l := .shutdown) rfl)
  have hi := shutdown_interrupted w
  have hslots : w.shutdown.slots = w.slots := congrArg (List.filterMap Run.slot?) (runs_shutdown w)
  exact ⟨hslots, hsound.live_nil hi, hslots ▸ hsound.canceled hi⟩

/-- In every state that a balanced run comes to, the keep-alive count is what is still held from
outside and one for every live executor, so that no release, a caller's or an executor's, finds
it at zero. Until a shutdown the live tickets are those of the live executors, each its own; the
shutdown cancels all of their handles, and an executor that ends later still takes one from the
count. -/
theorem keepAlive_matches_executors (hs : (create config 0).steps ls = some w)
    (hb : Balanced config ls) :
    w.keepAlive.count.toNat + releases ls =
      config.initialHolds.toNat + holds ls + w.slots.length ∧
    (Balanced config (ls ++ [.release]) → 0 < w.keepAlive.count.toNat) ∧
    (w.slots ≠ [] → 0 < w.keepAlive.count.toNat) ∧
    (w.slots.map Prod.fst).Nodup ∧
    (w.interrupted = false →
      w.tickets.live = w.slots ∧ w.statistics.asyncRunning = w.slots.length) ∧
    (∀ r ∈ w.runs, ∀ s, r.slot? = some s → r.phase = .exiting →
      ∃ v, w.step (.advance r.id .none) = some v ∧ v.slots = w.slots.erase s ∧
        v.tickets.live = w.tickets.live.erase s ∧
        v.keepAlive.count.toNat + 1 = w.keepAlive.count.toNat) ∧
    (∀ v, w.step .shutdown = some v → v.slots = w.slots ∧ v.tickets.live = [] ∧
      ∀ s ∈ w.slots, v.handles.isCanceled s.2 = true) ∧
    (w.interrupted = true →
      w.tickets.live = [] ∧ ∀ s ∈ w.slots, w.handles.isCanceled s.2 = true) := by
  have hr : Reachable config w := ⟨ls, hs⟩
  have hsound := roster_sound hr
  have hcounts := roster_counts hs hb
  have hlive := hcounts.pos_of_live (hb.owed ls List.prefix_rfl)
  refine ⟨hcounts, fun hb' => hcounts.pos_of_owed (hb'.owed _ List.prefix_rfl), hlive,
    hsound.nodup, fun hi => ?_, fun r hmem s hslot hp => ?_, ?_,
    fun hi => ⟨hsound.live_nil hi, hsound.canceled hi⟩⟩
  · have hall : w.tickets.live = w.slots := hsound.live_eq hi
    exact ⟨hall, congrArg List.length hall⟩
  · obtain ⟨hslots, htickets, hreleased⟩ := exit_executor hr hmem hslot
    have hpos := hlive (List.ne_nil_of_mem (List.mem_filterMap.mpr ⟨r, hmem, hslot⟩))
    refine ⟨w.exit r, step_exit (owned hr) hmem hp, hslots, htickets, ?_⟩
    rw [hreleased, KeepAlive.toNat_release]
    exact Nat.sub_add_cancel hpos
  · intro v hv
    cases hv
    exact shutdown_executors hr

/-- A caller holds the worker, an executor is launched, and the caller releases it. -/
def borrowed : List Label := opening ++ [.hold, .iterate] ++ launching upload ++ [.release]

theorem balanced_borrowed : Balanced {} borrowed := by
  have howed : ∀ ms ∈ borrowed.inits, releases ms ≤ ({} : Config).initialHolds.toNat + holds ms := by
    decide
  have hroom : ∀ ms ∈ borrowed.inits, ∀ v ∈ (create {} 0).steps ms,
      ({} : Config).initialHolds.toNat + holds ms + v.slots.length + 1 <
        UInt64.size + releases ms := by
    decide
  have hmem : ∀ ms, ms <+: borrowed → ms ∈ borrowed.inits := fun ms =>
    (List.mem_inits ms borrowed).mpr
  exact
    { owed := fun ms hp => howed ms (hmem ms hp)
      room := fun ms hp v hv => Nat.lt_of_succ_lt (hroom ms (hmem ms hp) v hv)
      launch := fun ms l hp u hu _ _ _ =>
        hroom ms (hmem ms ((List.prefix_append ms [l]).trans hp)) u hu }

/-- What is left of the count is the executor's own hold, and the live ticket is its own. -/
theorem executor_keeps_worker_alive :
    ∃ w, (create {} 0).steps borrowed = some w ∧ w.interrupted = false ∧ w.slots.length = 1 ∧
      w.keepAlive.count.toNat + releases borrowed = holds borrowed + 1 ∧
      w.tickets.live = w.slots := by
  have h : ∃ w, (create {} 0).steps borrowed = some w ∧ w.interrupted = false ∧
      w.slots.length = 1 := ⟨_, rfl, rfl, rfl⟩
  obtain ⟨w, hw, hi, hone⟩ := h
  obtain ⟨hcount, _, _, _, hlive, _⟩ := keepAlive_matches_executors hw balanced_borrowed
  refine ⟨w, hw, hi, hone, ?_, (hlive hi).1⟩
  rw [hcount, hone, Nat.add_right_cancel_iff]
  exact Nat.zero_add _

end Worker

end Outbox
