import Outbox.Proofs.Footprint
import Outbox.Proofs.InFlight.Ownership

/-! # The roster of executors

The part of a worker that keeps account of its executors: who of them is live, their tickets, their
handles, and the keep-alive count. `Move` says what a step can do to it, and `step_roster` that
every step does one of these things. `Sound` is what every step keeps: the live tickets are those
of the live executors until a shutdown takes all of them away and cancels every handle, and only
handles that were made are live or canceled. -/
namespace Outbox
set_option autoImplicit false

/-- The ticket and the handle of an executor. -/
def Run.slot? (r : Run) : Option (Nat × Handle) :=
  match r.kind with
  | .detached ticket handle => some (ticket, handle)
  | _ => none

/-- A caller holds the worker. -/
def Label.isHold : Label → Bool
  | .hold => true
  | _ => false

/-- A caller releases it. -/
def Label.isRelease : Label → Bool
  | .release => true
  | _ => false

theorem Label.spares_count {l : Label} (hl : l.mayRest = true ∨ l.isLook = true) :
    l.isHold = false ∧ l.isRelease = false := by
  cases l with
  | hold | release => rcases hl with hl | hl <;> cases hl
  | _ => exact ⟨rfl, rfl⟩

structure Roster where
  interrupted : Bool
  keepAlive : KeepAlive
  tickets : Tickets
  handles : Handles
  slots : List (Nat × Handle)

namespace Roster

def hold (b : Roster) : Roster := { b with keepAlive := b.keepAlive.hold }

def release (b : Roster) : Roster := { b with keepAlive := b.keepAlive.release }

/-- A new executor gets the next ticket and a new handle. -/
def seat (b : Roster) (name : String) : Roster :=
  { b with
    handles := (b.handles.make name).2
    tickets := (b.tickets.insert (b.handles.make name).1).2
    slots := b.slots ++ [((b.tickets.insert (b.handles.make name).1).1, (b.handles.make name).1)] }

/-- A ticket and a handle that no executor comes to have. -/
def skip (b : Roster) (name : String) : Roster :=
  { b with
    handles := (b.handles.make name).2
    tickets := ((b.tickets.insert (b.handles.make name).1).2.remove
      (b.tickets.insert (b.handles.make name).1).1).2 }

def cancel (b : Roster) (handle : Handle) : Roster :=
  { b with handles := b.handles.cancel handle }

def clear (b : Roster) : Roster :=
  { b with
    interrupted := true
    tickets := b.tickets.drain.2
    handles := b.handles.cancelAll b.tickets.drain.1 }

/-- An executor gives its ticket back; `rest` are the others. -/
def vacate (b : Roster) (s : Nat × Handle) (rest : List (Nat × Handle)) : Roster :=
  { b with tickets := (b.tickets.remove s.1).2, slots := rest }

inductive Move (b : Roster) : Label → Roster → Prop
  | stay {l : Label} (hl : l.isHold = false ∧ l.isRelease = false) : Move b l b
  | hold : Move b .hold b.hold
  | release : Move b .release b.release
  | cancel (handle : Handle) (hmade : handle.serial < b.handles.made) :
      Move b (.cancel handle) (b.cancel handle)
  | clear (hi : b.interrupted = false) : Move b .shutdown b.clear
  | seat (view : Worker.View) (name : String) (hi : b.interrupted = false) :
      Move b (.dispatch view) (b.hold.seat name)
  | skip (view : Worker.View) (name : String) (hi : b.interrupted = false) :
      Move b (.dispatch view) (b.skip name).hold.release
  | vacate (run : Nat) (s : Nat × Handle) (before after : List (Nat × Handle))
      (hs : b.slots = before ++ s :: after) :
      Move b (.advance run .none) (b.vacate s (before ++ after)).release

/-! ## What every move keeps -/

structure Sound (b : Roster) : Prop where
  ticket_le : ∀ s ∈ b.slots, s.1 ≤ b.tickets.last
  nodup : (b.slots.map Prod.fst).Nodup
  live_eq : b.interrupted = false → b.tickets.live = b.slots
  live_nil : b.interrupted = true → b.tickets.live = []
  canceled : b.interrupted = true → ∀ s ∈ b.slots, b.handles.isCanceled s.2 = true
  slot_made : ∀ s ∈ b.slots, s.2.serial < b.handles.made
  canceled_made : ∀ n ∈ b.handles.canceled, n < b.handles.made

variable {b c : Roster} {l : Label}

theorem Sound.seat (h : b.Sound) (hi : b.interrupted = false) (name : String) :
    (b.seat name).Sound where
  ticket_le s hs := by
    rcases List.mem_append.mp hs with hs | hs
    · exact Nat.le_succ_of_le (h.ticket_le s hs)
    · rw [List.mem_singleton.mp hs]
      exact Nat.le_refl _
  nodup := by
    change ((b.slots ++ [_]).map Prod.fst).Nodup
    rw [List.map_append, List.nodup_append]
    refine ⟨h.nodup, List.nodup_singleton _, ?_⟩
    intro i hi j hj hij
    obtain ⟨s, hs, rfl⟩ := List.mem_map.mp hi
    have hle := h.ticket_le s hs
    have hj : j = b.tickets.last + 1 := List.mem_singleton.mp hj
    omega
  live_eq _ := congrArg (· ++ [_]) (h.live_eq hi)
  live_nil hi' := Bool.noConfusion (hi.symm.trans hi')
  canceled hi' := Bool.noConfusion (hi.symm.trans hi')
  slot_made s hs := by
    rcases List.mem_append.mp hs with hs | hs
    · exact Nat.lt_succ_of_lt (h.slot_made s hs)
    · rw [List.mem_singleton.mp hs]
      exact Nat.lt_succ_self _
  canceled_made n hn := Nat.lt_succ_of_lt (h.canceled_made n hn)

theorem Sound.skip (h : b.Sound) (hi : b.interrupted = false) (name : String) :
    (b.skip name).Sound := by
  have hlive : (b.skip name).tickets.live = b.slots := by
    have hle : ∀ s ∈ b.slots, (s.1 != b.tickets.last + 1) = true := fun s hs =>
      bne_iff_ne.mpr (Nat.ne_of_lt (Nat.lt_succ_of_le (h.ticket_le s hs)))
    change (b.tickets.live ++ [(b.tickets.last + 1, _)]).filter (·.1 != b.tickets.last + 1) = b.slots
    rw [List.filter_append, h.live_eq hi, List.filter_eq_self.mpr hle]
    simp
  exact
    { ticket_le := fun s hs => Nat.le_succ_of_le (h.ticket_le s hs)
      nodup := h.nodup
      live_eq := fun _ => hlive
      live_nil := fun hi' => Bool.noConfusion (hi.symm.trans hi')
      canceled := fun hi' => Bool.noConfusion (hi.symm.trans hi')
      slot_made := fun s hs => Nat.lt_succ_of_lt (h.slot_made s hs)
      canceled_made := fun n hn => Nat.lt_succ_of_lt (h.canceled_made n hn) }

/-- A canceled handle stays canceled. -/
theorem Sound.cancel (h : b.Sound) {handle : Handle} (hmade : handle.serial < b.handles.made) :
    (b.cancel handle).Sound :=
  { h with
    canceled := fun hi s hs => by
      change (b.handles.cancel handle).isCanceled s.2 = true
      rw [Handles.isCanceled_cancel, h.canceled hi s hs, Bool.or_true]
    canceled_made := List.forall_mem_cons.mpr ⟨hmade, h.canceled_made⟩ }

theorem Sound.clear (h : b.Sound) (hi : b.interrupted = false) : b.clear.Sound where
  ticket_le := h.ticket_le
  nodup := h.nodup
  live_eq hi' := by cases hi'
  live_nil _ := rfl
  canceled _ s hs := by
    change (b.handles.cancelAll (b.tickets.live.map Prod.snd)).isCanceled s.2 = true
    rw [Handles.isCanceled_cancelAll, h.live_eq hi, Bool.or_eq_true, List.any_eq_true]
    exact .inl ⟨s.2, List.mem_map_of_mem hs, beq_self_eq_true _⟩
  slot_made s hs := by
    change s.2.serial < (b.handles.cancelAll _).made
    rw [Handles.made_cancelAll]
    exact h.slot_made s hs
  canceled_made n hn := by
    change n < (b.handles.cancelAll _).made
    rw [Handles.made_cancelAll]
    change n ∈ (b.handles.cancelAll (b.tickets.live.map Prod.snd)).canceled at hn
    rcases Handles.canceled_of_cancelAll hn with hn | ⟨g, hg, rfl⟩
    · exact h.canceled_made n hn
    · rw [h.live_eq hi] at hg
      obtain ⟨s, hs, rfl⟩ := List.mem_map.mp hg
      exact h.slot_made s hs

theorem Sound.vacate (h : b.Sound) {s : Nat × Handle} {before after : List (Nat × Handle)}
    (hs : b.slots = before ++ s :: after) : (b.vacate s (before ++ after)).Sound := by
  have hsub : (before ++ after).Sublist b.slots := by
    rw [hs]
    exact List.Sublist.append_left (List.sublist_cons_self s after) before
  have hkeep : b.slots.filter (·.1 != s.1) = before ++ after := by
    have hn := h.nodup
    rw [hs, List.map_append, List.map_cons, List.nodup_middle, List.nodup_cons, ← List.map_append]
      at hn
    have hother : ∀ q ∈ before ++ after, (q.1 != s.1) = true := fun q hq =>
      bne_iff_ne.mpr fun he => hn.1 (List.mem_map.mpr ⟨q, hq, he⟩)
    obtain ⟨hbefore, hafter⟩ := List.forall_mem_append.mp hother
    rw [hs, List.filter_append, List.filter_cons, if_neg (by simp),
      List.filter_eq_self.mpr hbefore, List.filter_eq_self.mpr hafter]
  exact
    { ticket_le := fun q hq => h.ticket_le q (hsub.subset hq)
      nodup := h.nodup.sublist (hsub.map _)
      live_eq := fun hi => by
        change b.tickets.live.filter (·.1 != s.1) = before ++ after
        rw [h.live_eq hi, hkeep]
      live_nil := fun hi => by
        change b.tickets.live.filter (·.1 != s.1) = []
        rw [h.live_nil hi]
        rfl
      canceled := fun hi q hq => h.canceled hi q (hsub.subset hq)
      slot_made := fun q hq => h.slot_made q (hsub.subset hq)
      canceled_made := h.canceled_made }

theorem Sound.move (h : b.Sound) (hm : b.Move l c) : c.Sound := by
  cases hm with
  | stay => exact h
  | hold | release => exact { h with }
  | cancel handle hmade => exact h.cancel hmade
  | clear hi => exact h.clear hi
  | seat view name hi =>
    have hheld : b.hold.Sound := { h with }
    exact hheld.seat hi name
  | skip view name hi =>
    have hskipped := h.skip hi name
    exact { hskipped with }
  | vacate run s before after hs =>
    have hvacated := h.vacate hs
    exact { hvacated with }

end Roster

namespace Worker

/-- The tickets and handles of the live executors, first launched first. -/
def slots (w : Worker) : List (Nat × Handle) := w.runs.filterMap Run.slot?

def roster (w : Worker) : Roster where
  interrupted := w.interrupted
  keepAlive := w.keepAlive
  tickets := w.tickets
  handles := w.handles
  slots := w.slots

variable {config : Config} {w v : Worker} {l : Label}

/-! ## What leaves the roster alone -/

theorem Quiet.roster (h : Quiet w v) : v.roster = w.roster := by
  cases h
  rfl

theorem Looked.roster {s : Submission} (h : Looked w s v) : v.roster = w.roster := by
  cases h with
  | quiet hv => exact hv.roster
  | accepted => rfl

theorem slots_setPhase (w : Worker) (id : Nat) (p : Phase) :
    (w.setPhase id p).slots = w.slots := by
  rw [slots, setPhase, List.filterMap_map]
  apply List.filterMap_congr
  intro r _
  simp only [Function.comp_apply]
  split <;> rfl

theorem roster_setPhase (w : Worker) (id : Nat) (p : Phase) :
    (w.setPhase id p).roster = w.roster :=
  congrArg (fun slots => ({ w.roster with slots } : Roster)) (slots_setPhase w id p)

theorem roster_noted (events : List Event) (v : Worker) :
    (events.foldl log v).roster = v.roster := by
  induction events generalizing v with
  | nil => rfl
  | cons e events ih => exact ih (v.log e)

/-- A run on the loop has no ticket. -/
theorem roster_begin (w : Worker) {job : Job} {kind : RunKind} {claim : Option MessageId}
    {custom : Option ListenerName} {phase : Phase} (hk : kind.onLoop = true) :
    (w.begin job kind claim custom phase).roster = w.roster := by
  have hslots : (w.begin job kind claim custom phase).slots = w.slots ++ _ := List.filterMap_append
  unfold roster
  rw [hslots]
  cases kind with
  | inline | refused =>
    simp only [List.filterMap_cons, List.filterMap_nil, Run.slot?, List.append_nil]
    rfl
  | detached => cases hk

theorem roster_launch (w : Worker) (job : Job) (claim : Option MessageId)
    (custom : Option ListenerName) :
    (w.launch job claim custom true).roster = w.roster.hold.seat (w.hold.executorName job) := by
  have hheld : w.hold.roster = w.roster.hold := (quiet_hold w).roster
  have hslots : (w.launch job claim custom true).slots = w.hold.slots ++ _ := List.filterMap_append
  rw [← hheld]
  unfold roster
  rw [hslots]
  rfl

theorem roster_unstarted (w : Worker) (job : Job) :
    (w.unstarted job).roster = (w.roster.skip (w.executorName job)).hold.release := by
  have hheld : (w.spent job).hold.roster = (w.spent job).roster.hold :=
    (quiet_hold (w.spent job)).roster
  have hreleased : (w.spent job).hold.release.roster = (w.spent job).hold.roster.release :=
    (quiet_release (w.spent job).hold).roster
  exact hreleased.trans (congrArg Roster.release hheld)

/-! ## The end of an executor -/

/-- An executor takes its own ticket away and one from the keep-alive count; a run on the loop
takes nothing. -/
theorem roster_exit (ho : w.ledger.Owned) {r : Run} (hr : r ∈ w.runs) :
    (r.slot? = none ∧ (w.exit r).roster = w.roster) ∨
      ∃ s before after, r.slot? = some s ∧ w.slots = before ++ s :: after ∧
        (w.exit r).roster = (w.roster.vacate s (before ++ after)).release := by
  obtain ⟨a, b, hab, hrest⟩ := ho.split hr
  have hab : w.runs = a ++ r :: b := hab
  have hrest : w.runs.filter (·.id != r.id) = a ++ b := hrest
  have hfreed : (w.freed r).runs = w.runs := congrArg Ledger.runs (ledger_freed w r)
  obtain ⟨listeners, he⟩ := exit_spec w r
  have hexit : (w.exit r).roster =
      { (w.freed r).roster with slots := (a ++ b).filterMap Run.slot? } := by
    rw [he, hfreed, hrest]
    rfl
  cases hs : r.slot? with
  | none =>
    refine .inl ⟨rfl, ?_⟩
    have hkept : (w.freed r).roster = w.roster := by
      unfold freed
      split
      · rename_i ticket handle hk
        rw [Run.slot?, hk] at hs
        cases hs
      · rfl
    have hslots : (a ++ b).filterMap Run.slot? = w.slots := by
      rw [slots, hab, List.filterMap_append, List.filterMap_append, List.filterMap_cons_none hs]
    rw [hexit, hkept, hslots]
    rfl
  | some s =>
    refine .inr ⟨s, a.filterMap Run.slot?, b.filterMap Run.slot?, rfl, ?_, ?_⟩
    · rw [slots, hab, List.filterMap_append, List.filterMap_cons_some hs]
    · have hgiven : (w.freed r).roster =
          { w.roster with tickets := (w.tickets.remove s.1).2 }.release := by
        unfold freed
        split
        · rename_i ticket handle hk
          rw [Run.slot?, hk] at hs
          obtain rfl := Option.some.inj hs
          exact (quiet_release _).roster
        · rename_i hk
          unfold Run.slot? at hs
          split at hs
          · rename_i ticket handle hd
            exact absurd hd (hk ticket handle)
          · cases hs
      rw [hexit, hgiven, List.filterMap_append]
      rfl

/-! ## Every step -/

theorem roster_dispatch {job : Job} {view : View} (h : Dispatched w job view v) :
    w.roster.Move (.dispatch view) v.roster := by
  cases h with
  | closed | duplicate => exact .stay ⟨rfl, rfl⟩
  | refused p listeners custom =>
    rw [roster_begin _ rfl]
    exact .stay ⟨rfl, rfl⟩
  | inline claim s listeners custom =>
    rw [roster_begin _ rfl]
    exact .stay ⟨rfl, rfl⟩
  | detached claim s listeners custom ho =>
    rw [roster_launch]
    exact .seat view _ (not_interrupted_of_isOpen ho)
  | unstarted claim s ho =>
    rw [roster_unstarted]
    exact .skip view _ (not_interrupted_of_isOpen ho)

theorem roster_advance (ho : w.ledger.Owned) {r : Run} (hr : r ∈ w.runs) {reply : Reply}
    (h : w.advanceRun? r reply = some v) : w.roster.Move (.advance r.id reply) v.roster := by
  cases advanceRun_spec h with
  | going reply succeeded failed requeued book events p =>
    rw [roster_setPhase, roster_noted]
    exact .stay ⟨rfl, rfl⟩
  | requeued =>
    have hlooked := (look_spec w
      { job := r.job, delay := w.config.retryDelay, attempts := w.config.submitAttempts }).roster
    rw [requeue, roster_setPhase, hlooked]
    exact .stay ⟨rfl, rfl⟩
  | ended =>
    rcases roster_exit ho hr with ⟨_, he⟩ | ⟨s, before, after, _, hs, he⟩
    · rw [he]
      exact .stay ⟨rfl, rfl⟩
    · rw [he]
      exact .vacate r.id s before after hs

theorem step_roster (ho : w.ledger.Owned) (h : w.step l = some v) : w.roster.Move l v.roster := by
  cases step_footprint h with
  | quiet hl hv =>
    rw [hv.roster]
    exact .stay (Label.spares_count (.inl hl))
  | look s hl hv =>
    rw [hv.roster]
    exact .stay (Label.spares_count (.inr hl))
  | hold hv =>
    rw [hv.roster]
    exact .hold
  | release hv =>
    rw [hv.roster]
    exact .release
  | cancel handle hmade => exact .cancel handle hmade
  | shutdown hi => exact .clear hi
  | climb s rotation news hl => exact .stay (Label.spares_count (.inl hl))
  | start | join | enter | prepare | close => exact .stay ⟨rfl, rfl⟩
  | dispatch view job hp hd =>
    have hm := roster_dispatch hd
    exact hm
  | advance r reply hr ha => exact roster_advance ho hr ha

theorem roster_sound (h : Reachable config w) : w.roster.Sound := by
  refine h.induction (P := fun w => w.roster.Sound) ?_ fun _ _ _ hr hw hs =>
    hw.move (step_roster (owned hr) hs)
  constructor <;> simp [create, roster, slots]

end Worker

end Outbox
