import Outbox.Proofs.InFlight.Ledger

/-! # What dispatch decides

Six things can become of a job that the loop has picked, and dispatch asks for them in a fixed
order. `IsFirst` says which of them is due in a state, in terms of that state and the job alone, and
`Fulfilled` what it comes to: a drop changes one counter and is noted, otherwise a run begins, if
there is a thread for it. Main statement: `dispatch_fulfills_first`. -/
namespace Outbox
set_option autoImplicit false

/-- What can become of a job that is dispatched. -/
inductive Verdict where
  | drop (r : DropReason)
  /-- The job's message has no id, and a run reports it. -/
  | refuse
  | run
  deriving DecidableEq, Repr

namespace Verdict

def order : List Verdict :=
  [.drop .interrupted, .drop .disconnected, .drop .canceled, .refuse, .drop .duplicate, .run]

def Applies (w : Worker) (job : Job) (view : Worker.View) : Verdict → Prop
  | .drop .interrupted => w.interrupted = true
  | .drop .disconnected => w.linked = false ∨ view.connected = false
  | .drop .canceled => view.canceled = true
  | .refuse => ∃ m p, job.message = some m ∧ m.uri.messageId = .error p
  | .drop .duplicate => ∃ id, job.Sends id ∧ id ∈ w.inFlight.ids ∧ job.mayResend = false
  | .run => True

/-- It applies, and nothing that comes before it in the order does. -/
def IsFirst (w : Worker) (job : Job) (view : Worker.View) (x : Verdict) : Prop :=
  ∃ before after, order = before ++ x :: after ∧ x.Applies w job view ∧
    ∀ y ∈ before, ¬ y.Applies w job view

/-- What a verdict comes to. -/
def Fulfilled (w : Worker) (job : Job) (view : Worker.View) : Verdict → Worker → Prop
  | .drop r, v =>
    v = { w with
      stats := w.stats.recordDrop r
      journal := ⟨w.now, .dropped job.id r⟩ :: w.journal } ∧
    ∀ q, v.stats.dropped q = w.stats.dropped q + if q = r then 1 else 0
  | .refuse, v =>
    v.stats = w.stats ∧ ∃ m p r, job.message = some m ∧ m.uri.messageId = .error p ∧
      v.runs = w.runs ++ [r] ∧ r.job = job ∧ r.kind = .refused ∧
      r.phase = .failing (Failure.ofInvalid p.toInvalid)
  | .run, v =>
    v.stats = { w.stats with dispatched := w.stats.dispatched + 1 } ∧
    if view.houses job then ∃ r,
      v.runs = w.runs ++ [r] ∧ r.job = job ∧ r.phase = .ready ∧ r.kind ≠ .refused ∧
      (r.kind.onLoop = true ↔ job.lane = .inline)
    else v.runs = w.runs ∧ v.inFlight = w.inFlight ∧ v.listeners = w.listeners

variable {w : Worker} {job : Job} {view : Worker.View}

theorem fulfilled_drop (w : Worker) (job : Job) (view : Worker.View) (r : DropReason) :
    Fulfilled w job view (.drop r) (w.drop job r) :=
  ⟨rfl, fun q => Stats.dropped_recordDrop w.stats r q⟩

/-- An early drop is due exactly if its reason is the first that holds. -/
theorem isFirst_of_closed (h : w.isOpen view = false) (job : Job) :
    ∃ r, w.dispatch job view = w.drop job r ∧ (Verdict.drop r).IsFirst w job view := by
  unfold Worker.dispatch
  by_cases hi : w.interrupted = true
  · exact ⟨.interrupted, if_pos hi, [], _, rfl, hi, List.forall_mem_nil _⟩
  rw [if_neg hi]
  by_cases hl : w.linked = false ∨ view.connected = false
  · refine ⟨.disconnected, if_pos ?_, [.drop .interrupted], _, rfl, hl, ?_⟩
    · rcases hl with hl | hl <;> simp [hl]
    · exact List.forall_mem_singleton.mpr hi
  have hlinked : (!(w.linked && view.connected)) = false := by simpa using hl
  rw [hlinked, if_neg Bool.false_ne_true]
  have hcanceled : view.canceled = true := by
    simp only [Worker.isOpen, Bool.eq_false_iff.mpr hi] at h
    simp_all
  refine ⟨.canceled, if_pos hcanceled, [.drop .interrupted, .drop .disconnected], _, rfl,
    hcanceled, ?_⟩
  exact List.forall_mem_cons.mpr ⟨hi, List.forall_mem_singleton.mpr hl⟩

/-- In an open worker only the job's message decides. -/
theorem not_applies_of_isOpen (ho : w.isOpen view = true) (job : Job) :
    ∀ y ∈ [drop .interrupted, drop .disconnected, drop .canceled], ¬ y.Applies w job view := by
  simp only [Worker.isOpen, Bool.and_eq_true, Bool.not_eq_true'] at ho
  obtain ⟨⟨hi, hl, hc⟩, hn⟩ := ho
  have hinterrupted : ¬ (drop .interrupted).Applies w job view := by simp [Applies, hi]
  have hdisconnected : ¬ (drop .disconnected).Applies w job view := by simp [Applies, hl, hc]
  have hcanceled : ¬ (drop .canceled).Applies w job view := by simp [Applies, hn]
  exact List.forall_mem_cons.mpr ⟨hinterrupted, List.forall_mem_cons.mpr
    ⟨hdisconnected, List.forall_mem_singleton.mpr hcanceled⟩⟩

theorem isFirst_refuse (ho : w.isOpen view = true) {p : MessageUri.Problem}
    (hc : Worker.claimFor w.inFlight job = .error p) : refuse.IsFirst w job view := by
  obtain ⟨m, hm, hp⟩ := Worker.uri_of_claimFor_error hc
  exact ⟨_, [.drop .duplicate, .run], rfl, ⟨m, p, hm, hp⟩, not_applies_of_isOpen ho job⟩

theorem not_applies_refuse {a : Worker.Admission × InFlight}
    (hc : Worker.claimFor w.inFlight job = .ok a) : ¬ refuse.Applies w job view := by
  rintro ⟨m, p, hm, hp⟩
  rw [Worker.claimFor_bad_uri hm hp] at hc
  cases hc

theorem isFirst_duplicate (ho : w.isOpen view = true) {s : InFlight}
    (hc : Worker.claimFor w.inFlight job = .ok (.duplicate, s)) :
    (drop .duplicate).IsFirst w job view := by
  refine ⟨[drop .interrupted, drop .disconnected, drop .canceled, refuse], [.run], rfl,
    (Worker.claimFor_duplicate_iff.mp hc).1, ?_⟩
  exact List.forall_mem_append.mpr ⟨not_applies_of_isOpen ho job,
    List.forall_mem_singleton.mpr (not_applies_refuse hc)⟩

theorem isFirst_run (ho : w.isOpen view = true) {claim : Option MessageId} {s : InFlight}
    (hc : Worker.claimFor w.inFlight job = .ok (.proceed claim, s)) : run.IsFirst w job view := by
  have hfresh : ¬ (drop .duplicate).Applies w job view := by
    intro hd
    have hdup := Worker.claimFor_duplicate_iff.mpr ⟨hd, rfl⟩
    cases hc.symm.trans hdup
  refine ⟨[drop .interrupted, drop .disconnected, drop .canceled, refuse, drop .duplicate], [],
    rfl, trivial, ?_⟩
  refine List.forall_mem_append.mpr ⟨not_applies_of_isOpen ho job, ?_⟩
  exact List.forall_mem_cons.mpr ⟨not_applies_refuse hc, List.forall_mem_singleton.mpr hfresh⟩

end Verdict

namespace Worker
open Verdict

/-- Whatever the state and the job, the first verdict that applies is the one that is carried
out. -/
theorem dispatch_fulfills_first (w : Worker) (job : Job) (view : View) :
    ∃ x : Verdict, x.IsFirst w job view ∧ x.Fulfilled w job view (w.dispatch job view) := by
  have hspec := dispatch_spec w job view
  cases ho : w.isOpen view with
  | false =>
    obtain ⟨r, he, hfirst⟩ := isFirst_of_closed ho job
    rw [he]
    exact ⟨.drop r, hfirst, fulfilled_drop w job view r⟩
  | true =>
    generalize w.dispatch job view = v at hspec
    cases hspec with
    | closed r _ hclosed => cases ho.symm.trans hclosed
    | duplicate s _ hc => exact ⟨_, isFirst_duplicate ho hc, fulfilled_drop w job view .duplicate⟩
    | refused p listeners custom _ hc =>
      obtain ⟨m, hm, hp⟩ := uri_of_claimFor_error hc
      exact ⟨_, isFirst_refuse ho hc, rfl, m, p, _, hm, hp, rfl, rfl, rfl, rfl⟩
    | inline claim s listeners custom _ hc hl =>
      refine ⟨_, isFirst_run ho hc, rfl, ?_⟩
      rw [View.houses_of_inline hl]
      exact ⟨_, rfl, rfl, rfl, nofun, fun _ => hl, fun _ => rfl⟩
    | detached claim s listeners custom _ hc hl _ hspawns =>
      obtain ⟨handles, tickets, book, ticket, handle, he⟩ :=
        launch_spec (w.admitting s listeners) job claim custom
      have hstats := launch_stats (w.admitting s listeners) job claim custom
      have hruns : (w.admitting s listeners).hold.runs = w.runs :=
        congrArg Ledger.runs (ledger_hold (w.admitting s listeners))
      refine ⟨_, isFirst_run ho hc, hstats, ?_⟩
      rw [View.houses_of_detached hl, hspawns, he]
      refine ⟨_, congrArg (· ++ [_]) hruns, rfl, rfl, nofun, nofun, fun hi => ?_⟩
      cases hl.symm.trans hi
    | unstarted claim s _ hc hl hspawns =>
      have hledger := ledger_unstarted (w.admitting w.inFlight w.listeners) job
      refine ⟨_, isFirst_run ho hc, unstarted_stats _ job, ?_⟩
      rw [View.houses_of_detached hl, hspawns]
      exact ⟨congrArg Ledger.runs hledger, congrArg Ledger.inFlight hledger,
        unstarted_listeners _ job⟩

end Worker

end Outbox
