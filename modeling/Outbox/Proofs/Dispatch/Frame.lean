import Outbox.Proofs.Dispatch.Verdict
import Outbox.Proofs.Runs.Follow

/-! # What a run on the loop leaves behind

The loop waits for a run that it does itself. Such a run may register its job's listener and own
the id of its message, and it gives both back in its last step. So if nobody else touches the
registries, the ids in flight, the keep-alive count and the executors meanwhile, they are in the
end what they were before the dispatch, however the run went. Main statement:
`dispatch_first_applicable_and_frame`. -/
namespace Outbox
set_option autoImplicit false

/-- What the worker shares with others while the loop is busy with a run. -/
structure Frame where
  listeners : Listeners
  inFlight : InFlight
  keepAlive : KeepAlive
  executors : Tickets

/-- The frame without what a run holds of it. -/
def Frame.without (f : Frame) (r : Run) : Frame :=
  { f with
    listeners := f.listeners.strike r.job.lane r.custom
    inFlight := r.claim.elim f.inFlight fun id => (f.inFlight.release id).2 }

theorem Frame.without_same (f : Frame) {q r : Run} (h : q.Same r) : f.without q = f.without r := by
  obtain ⟨p, rfl⟩ := h
  rfl

namespace Worker

def frame (w : Worker) : Frame := ⟨w.listeners, w.inFlight, w.keepAlive, w.tickets⟩

/-- Nobody but the run of this number touches the frame. -/
def Undisturbed (h : List Moment) (n : Nat) : Prop :=
  ∀ m ∈ h, (∀ reply, m.label ≠ .advance n reply) → m.target.frame = m.source.frame

variable {config : Config} {w u v : Worker} {l : Label} {r first : Run} {n : Nat}

/-! ## One step -/

theorem frame_look (w : Worker) (s : Submission) : (w.look s).2.frame = w.frame := by
  have hlisteners := listeners_look w s
  have hlook := look_spec w s
  generalize (w.look s).2 = v at hlisteners hlook
  unfold frame
  rw [hlisteners]
  cases hlook with
  | quiet hv =>
    obtain ⟨⟩ := hv
    rfl
  | accepted => rfl

theorem frame_exit (w : Worker) (hk : r.kind.onLoop = true) :
    (w.exit r).frame = w.frame.without r := by
  have hfreed : w.freed r = { w with inFlight := w.givenBack r } := by
    unfold freed
    cases hkind : r.kind with
    | detached ticket handle =>
      rw [hkind] at hk
      cases hk
    | inline | refused => rfl
  rw [exit_eq, hfreed]
  rfl

/-- A run on the loop leaves the frame alone until it ends, and then it gives back what it holds. -/
theorem frame_advance (hk : r.kind.onLoop = true) {reply : Reply}
    (h : w.advanceRun? r reply = some v) :
    ((∃ p, v.runs = (w.setPhase r.id p).runs) ∧ v.frame = w.frame) ∨
      (v.runs = w.runs.filter (·.id != r.id) ∧ v.frame = w.frame.without r) := by
  cases advanceRun_spec h with
  | going reply succeeded failed requeued book events p =>
    rw [noted_eq]
    exact .inl ⟨⟨p, rfl⟩, rfl⟩
  | requeued =>
    have hruns := congrArg Ledger.runs (ledger_requeue w r)
    exact .inl ⟨⟨.exiting, hruns⟩, frame_look w _⟩
  | ended =>
    have hruns := congrArg Ledger.runs (ledger_exit w r)
    exact .inr ⟨hruns, frame_exit w hk⟩

/-! ## The whole run -/

/-- The run is live, and the frame without what it holds is the one before it; or the run is over,
and the frame is that one. -/
inductive Lodging (before : Frame) (first : Run) (w : Worker) : Prop
  | live (r : Run) (hr : r ∈ w.runs) (hs : r.Same first) (hf : w.frame.without first = before)
  | ended (hgone : ∀ q ∈ w.runs, q.id ≠ first.id) (hn : first.id ≤ w.lastRun)
      (hf : w.frame = before)

namespace Lodging
variable {before : Frame}

theorem step_own (hw : Reachable config w) (hk : first.kind.onLoop = true)
    (h : Lodging before first w) {reply : Reply}
    (hl : w.step (.advance first.id reply) = some v) : Lodging before first v := by
  obtain ⟨q, hq, hid, hrun⟩ := advance_of_step hl
  cases h with
  | ended hgone => exact absurd hid (hgone q hq)
  | live r hr hs hf =>
    have ho := owned hw
    obtain rfl := ho.eq_of_id hq hr (hid.trans hs.id_eq.symm)
    have hkind : q.kind.onLoop = true := by
      obtain ⟨p, rfl⟩ := hs
      exact hk
    rcases frame_advance hkind hrun with ⟨⟨p, hruns⟩, hframe⟩ | ⟨hruns, hframe⟩
    · have hmem : { q with phase := p } ∈ v.runs := by
        rw [hruns]
        exact List.mem_map.mpr ⟨q, hq, if_pos rfl⟩
      exact .live _ hmem (.trans ⟨p, rfl⟩ hs) (hframe ▸ hf)
    · refine .ended ?_ ?_ ?_
      · intro s hs
        rw [hruns] at hs
        rw [← hid]
        exact bne_iff_ne.mp (List.mem_filter.mp hs).2
      · rw [← hid]
        exact Nat.le_trans (ho.run_le q hq) (step_roll ho hl).lastRun_le
      · rw [hframe, w.frame.without_same hs, hf]

theorem step_other (hw : Reachable config w) (h : Lodging before first w)
    (hl : ∀ reply, l ≠ .advance first.id reply) (hs : w.step l = some v)
    (hframe : v.frame = w.frame) : Lodging before first v := by
  cases h with
  | live r hr hsame hf =>
    rcases (step_passage hs).of_live (owned hw) hr with ⟨hmem, _⟩ | ⟨reply, _, _, hown, _⟩ |
      ⟨hown, _⟩
    · exact .live r hmem hsame (hframe ▸ hf)
    · exact absurd (hsame.id_eq ▸ hown) (hl reply)
    · exact absurd (hsame.id_eq ▸ hown) (hl .none)
  | ended hgone hn hf =>
    have hle := (step_roll (owned hw) hs).lastRun_le
    -- Numbers are not given twice, so the run does not begin again.
    rcases (Fate.absent hgone (step_passage hs)).2 with hgone' | ⟨hnew, _⟩
    · exact .ended hgone' (Nat.le_trans hn hle) (hframe.trans hf)
    · omega

/-- The induction runs over the labels; each step is the run's own or leaves the frame alone. -/
theorem steps (hk : first.kind.onLoop = true) {ls : List Label} (hw : Reachable config w)
    (h : Lodging before first w) (hs : w.steps ls = some v)
    (hu : Undisturbed (w.history ls) first.id) : Lodging before first v := by
  induction ls generalizing w with
  | nil =>
    cases hs
    exact h
  | cons l ls ih =>
    obtain ⟨x, hl, hx⟩ := steps_cons_eq_some.mp hs
    have hhist : w.history (l :: ls) = ⟨w, l, x⟩ :: x.history ls := by
      simp only [history, hl, Option.elim_some]
    rw [hhist] at hu
    obtain ⟨hfirst, hrest⟩ := List.forall_mem_cons.mp hu
    refine ih (hw.step hl) ?_ hx hrest
    by_cases hown : ∃ reply, l = .advance first.id reply
    · obtain ⟨reply, rfl⟩ := hown
      exact h.step_own hw hk hl
    · have hother : ∀ reply, l ≠ .advance first.id reply := not_exists.mp hown
      exact h.step_other hw hother hl (hfirst hother)

end Lodging

/-! ## Dispatch -/

/-- What a claim puts among the ids in flight its release takes out again. -/
theorem release_of_proceed {s t : InFlight} {job : Job} {claim : Option MessageId}
    (h : claimFor s job = .ok (.proceed claim, t)) :
    (claim.elim t fun id => (t.release id).2) = s := by
  rcases claimFor_proceed h with ⟨id, rfl, _, _, rfl⟩ | ⟨rfl, rfl, _⟩
  · exact congrArg InFlight.mk (List.erase_cons_head id s.ids)
  · rfl

/-- Without what it holds of it the frame of a run that has just begun is the one before it. -/
theorem frame_of_dispatched {job : Job} {view : View} (h : Dispatched w job view u)
    (hruns : u.runs = w.runs ++ [r]) (hk : r.kind.onLoop = true) :
    u.frame.without r = w.frame := by
  have hback := Listeners.strike_enlist w.listeners job.lane job.listener
  cases h with
  | closed | duplicate =>
    have hnone : w.runs = w.runs ++ [r] := hruns
    simp at hnone
  | refused p listeners custom _ _ he =>
    obtain rfl := List.singleton_inj.mp (List.append_cancel_left hruns)
    rw [he] at hback
    exact congrArg (fun listeners => ({ w.frame with listeners } : Frame)) hback
  | inline claim s listeners custom _ hc _ he =>
    obtain rfl := List.singleton_inj.mp (List.append_cancel_left hruns)
    rw [he] at hback
    have hids := release_of_proceed hc
    exact congrArg₂ (fun listeners inFlight => ({ w.frame with listeners, inFlight } : Frame))
      hback hids
  | detached claim s listeners custom =>
    obtain ⟨handles, tickets, book, ticket, handle, he⟩ :=
      launch_spec (w.admitting s listeners) job claim custom
    have hheld : (w.admitting s listeners).hold.runs = w.runs :=
      congrArg Ledger.runs (ledger_hold (w.admitting s listeners))
    rw [he] at hruns
    change (w.admitting s listeners).hold.runs ++ [_] = w.runs ++ [r] at hruns
    rw [hheld] at hruns
    obtain rfl := List.singleton_inj.mp (List.append_cancel_left hruns)
    cases hk
  | unstarted =>
    have hsame := congrArg Ledger.runs (ledger_unstarted (w.admitting w.inFlight w.listeners) job)
    have hnone : w.runs = w.runs ++ [r] := hsame.symm.trans hruns
    simp at hnone

/-- Whatever the state and the job, dispatch carries out the first verdict that applies; a drop
changes its counter and the journal and nothing else. When it begins a run on the loop, be it of the
job or only to report that its message has no id, and nobody else touches the registries, the ids in
flight, the keep-alive count and the executors until the run is over, then these are as they were
before the dispatch, whatever happened in the run. -/
theorem dispatch_first_applicable_and_frame (w : Worker) (job : Job) (view : View) :
    (∃ x : Verdict, x.IsFirst w job view ∧ x.Fulfilled w job view (w.dispatch job view)) ∧
    ∀ config u r ls v, Reachable config w → w.loop.picked = some job →
      w.step (.dispatch view) = some u → u.runs = w.runs ++ [r] → r.kind.onLoop = true →
      u.steps ls = some v → Undisturbed (u.history ls) r.id → (∀ q ∈ v.runs, q.id ≠ r.id) →
      v.frame = w.frame := by
  refine ⟨dispatch_fulfills_first w job view, ?_⟩
  intro config u r ls v hw hpicked hs hruns hk hls hundisturbed hgone
  obtain ⟨job', hp, he⟩ := dispatch_of_step hs
  let freeLoop : Worker := w.withLoop { w.loop with picked := none }
  have hspec : Dispatched freeLoop job' view u := he ▸ dispatch_spec freeLoop job' view
  have hfirst : u.frame.without r = w.frame :=
    frame_of_dispatched (w := freeLoop) hspec hruns hk
  have hmem : r ∈ u.runs := by
    rw [hruns]
    exact List.mem_append_right _ List.mem_cons_self
  have hlodging : Lodging w.frame r u := .live r hmem (.refl r) hfirst
  cases hlodging.steps hk (hw.step hs) hls hundisturbed with
  | live q hq hsame => exact absurd hsame.id_eq (hgone q hq)
  | ended _ _ hf => exact hf

/-- Runs on the loop, brings a listener along and fails. -/
def returning : Job where
  id := .ofNat 1
  message := some { uri := ⟨"content://messages/7"⟩ }
  listener := some "own"
  plan := .finish (.error .disconnected)

/-- Its listener hears of the start and of the failure, votes for a retry, and the run ends. -/
def returned : List Label :=
  advancing 1 6 ++ [.advance 1 (.vote true)] ++ advancing 1 3

/-- A run that owned an id, registered a listener and was sent back leaves nothing behind. -/
theorem returning_leaves_nothing :
    ∃ w u v, Reachable {} w ∧ w.loop.picked = some returning ∧
      w.step (.dispatch ⟨true, false, true⟩) = some u ∧ u.inFlight.ids = [⟨7⟩] ∧
      u.listeners.inline.members = ["own"] ∧ u.steps returned = some v ∧
      v.stats.requeued = 1 ∧ v.frame = w.frame := by
  have h : ∃ w u v r, Reachable {} w ∧ w.loop.picked = some returning ∧
      w.step (.dispatch ⟨true, false, true⟩) = some u ∧ u.inFlight.ids = [⟨7⟩] ∧
      u.listeners.inline.members = ["own"] ∧ u.steps returned = some v ∧ v.stats.requeued = 1 ∧
      u.runs = w.runs ++ [r] ∧ r.kind.onLoop = true ∧ r.id = 1 ∧ v.runs = [] :=
    ⟨_, _, _, _, ⟨opening ++ handing returning, rfl⟩, rfl, rfl, rfl, rfl, rfl, rfl, rfl, rfl, rfl,
      rfl⟩
  obtain ⟨w, u, v, r, hw, hp, hs, hids, hown, hls, hretry, hruns, hk, hid, hgone⟩ := h
  have hundisturbed : Undisturbed (u.history returned) r.id := by
    intro m hm hother
    obtain ⟨ms, hprefix, _⟩ := prefix_of_mem_history hm
    have hlabel : m.label ∈ returned := hprefix.subset (List.mem_append_right _ List.mem_cons_self)
    simp only [returned, advancing, List.mem_append, List.mem_replicate, List.mem_singleton]
      at hlabel
    rcases hlabel with (⟨_, hl⟩ | hl) | ⟨_, hl⟩ <;> exact absurd hl (hid ▸ hother _)
  refine ⟨w, u, v, hw, hp, hs, hids, hown, hls, hretry, ?_⟩
  refine (dispatch_first_applicable_and_frame w returning ⟨true, false, true⟩).2 {} u r returned v hw hp
    hs hruns hk hls hundisturbed ?_
  rw [hgone]
  exact List.forall_mem_nil _

end Worker

end Outbox
