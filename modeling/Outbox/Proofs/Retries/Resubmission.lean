import Outbox.Proofs.Retries.Begun
import Outbox.Proofs.Runs.Broadcast

/-! # What a run puts back

A run that was voted for a retry posts its job once more, with the retry delay, and takes no other
step that posts a job. `retries` is all that the steps of one run have posted so. Main statement:
`requested_advance`. -/
namespace Outbox
set_option autoImplicit false

def Posting.isRequest (p : Posting) : Bool := p.request?.isSome

namespace Worker

namespace Moment

/-- The jobs that are posted in this step. -/
def requested (m : Moment) : List Posting :=
  (m.target.postings.drop m.source.postings.length).filter Posting.isRequest

/-- This is a step of the run of that number. -/
def isOf (m : Moment) (n : Nat) : Bool :=
  match m.label with
  | .advance run _ => run == n
  | _ => false

/-- The run of this number comes to put its job back. -/
def Resubmits (m : Moment) (n : Nat) : Prop :=
  ∃ r ∈ m.source.runs, r.id = n ∧ r.phase = .requeueing ∧ m.label = .advance n .none

theorem isOf_iff {m : Moment} {n : Nat} :
    m.isOf n = true ↔ ∃ reply, m.label = .advance n reply := by
  unfold isOf
  cases m.label with
  | advance run reply =>
    rw [beq_iff_eq]
    constructor
    · rintro rfl
      exact ⟨reply, rfl⟩
    · rintro ⟨_, he⟩
      cases he
      rfl
  | _ => exact ⟨nofun, nofun⟩

end Moment

/-- What the run of this number has put back into the mailbox. -/
def retries (h : List Moment) (n : Nat) : List Posting :=
  (h.filter (·.isOf n)).flatMap Moment.requested

/-- The posting with which the run puts its job back now. -/
def retry (w : Worker) (r : Run) : Posting := ⟨w.now, w.config.retryDelay, .request r.job⟩

variable {config : Config} {w v : Worker} {l : Label} {r : Run} {n : Nat} {h : List Moment}
  {m : Moment}

theorem retries_snoc (h : List Moment) (m : Moment) (n : Nat) :
    retries (h ++ [m]) n = retries h n ++ if m.isOf n then m.requested else [] := by
  rw [retries, List.filter_append, List.flatMap_append, ← retries]
  cases hm : m.isOf n <;> simp [hm]

theorem retries_snoc_of_apart (h : List Moment) (hm : m.isOf n = false) :
    retries (h ++ [m]) n = retries h n := by
  rw [retries_snoc, hm, if_neg Bool.false_ne_true, List.append_nil]

theorem retries_snoc_of_own (h : List Moment) (hm : m.isOf n = true) :
    retries (h ++ [m]) n = retries h n ++ m.requested := by
  rw [retries_snoc, hm, if_pos rfl]

/-! ## What a step posts -/

theorem requested_of_news {news : List JournalEntry} (hj : v.journal = news ++ w.journal) :
    Moment.requested ⟨w, l, v⟩ =
      (news.filterMap JournalEntry.posting?).reverse.filter Posting.isRequest := by
  change (v.postings.drop w.postings.length).filter _ = _
  rw [postings_of_news hj, List.drop_left]

theorem requested_eq_nil {news : List JournalEntry} (hj : v.journal = news ++ w.journal)
    (hn : ∀ e ∈ news, e.event.request? = none) : Moment.requested ⟨w, l, v⟩ = [] := by
  rw [requested_of_news hj]
  refine List.filter_eq_nil_iff.mpr fun p hp => ?_
  obtain ⟨e, he, hpost⟩ := List.mem_filterMap.mp (List.mem_reverse.mp hp)
  have hnone := hn e he
  rw [← request?_posting?, hpost] at hnone
  have hnone : p.request? = none := hnone
  rw [Posting.isRequest, hnone]
  exact Bool.false_ne_true

theorem requested_stride {reply : Reply} {notice : Option Notice} {events : List Event} {p : Phase}
    {book : JobBook} {stats : Stats} (hs : Stride w r reply notice events p) :
    Moment.requested
      ⟨w, l, (events.foldl log { w with book, stats }).setPhase r.id p⟩ = [] := by
  rw [noted_eq]
  refine requested_eq_nil rfl fun e he => ?_
  obtain ⟨event, hmem, rfl⟩ := List.mem_map.mp (List.mem_reverse.mp he)
  exact (Event.routine_of_byRun (hs.byRun event hmem)).2.2.2

theorem requested_exit (w : Worker) (r : Run) : Moment.requested ⟨w, l, w.exit r⟩ = [] := by
  obtain ⟨tickets, keepAlive, hquiet⟩ := freed_spec w r
  rw [exit_eq]
  generalize w.freed r = freed at hquiet
  obtain ⟨now, _, _, _, _, _, _, news, _, _, hnews⟩ := hquiet
  have hnone : ∀ e ∈ ⟨now, .ended r.id⟩ :: news, e.event.request? = none :=
    List.forall_mem_cons.mpr ⟨rfl, fun e he => Event.request?_of_isQuiet (hnews e he).1⟩
  exact requested_eq_nil rfl hnone

/-- A submission is accepted as long as the loop is there. -/
theorem look_of_open (hi : w.interrupted = false) (hin : w.installed = true)
    (hc : w.loop.mailbox.closed = false) (s : Submission) :
    ∃ v, w.look s = (some (.ok ()), v) := by
  have hready : w.readiness s.attempts = .ready := by
    rw [readiness, hi, hin]
    rfl
  rw [look, hready]
  dsimp only
  rw [accept, post_eq, hc]
  exact ⟨_, rfl⟩

/-- The job is posted again unless the worker was shut down. -/
theorem requested_requeue (hw : Reachable config w) (hr : r ∈ w.runs) :
    Moment.requested ⟨w, l, w.requeue r⟩ = if w.interrupted then [] else [w.retry r] := by
  let s : Submission :=
    { job := r.job, delay := w.config.retryDelay, attempts := w.config.submitAttempts }
  have hlook : (w.requeue r).journal = (w.look s).2.journal := rfl
  cases hi : w.interrupted with
  | true =>
    rw [if_pos rfl]
    rw [look_of_interrupted hi] at hlook
    exact requested_eq_nil (hlook.trans List.singleton_append.symm)
      (List.forall_mem_singleton.mpr rfl)
  | false =>
    rw [if_neg Bool.false_ne_true]
    obtain ⟨hin, hc⟩ := open_of_live hw hr hi
    obtain ⟨u, hu⟩ := look_of_open hi hin hc s
    have hposted : (w.requeue r).postings = w.postings ++ [w.retry r] := by
      rw [postings, hlook, hu]
      exact postings_of_look w hu
    change ((w.requeue r).postings.drop w.postings.length).filter _ = _
    rw [hposted, List.drop_left]
    rfl

/-- Only a run that comes to ask for a retry posts its job. -/
theorem requested_advance (hw : Reachable config w) (hr : r ∈ w.runs) {reply : Reply}
    (h : w.advanceRun? r reply = some v) :
    (r.phase = .requeueing ∧ reply = .none ∧ v = w.requeue r ∧
      Moment.requested ⟨w, .advance r.id reply, v⟩ = if w.interrupted then [] else [w.retry r]) ∨
    (r.phase ≠ .requeueing ∧ Moment.requested ⟨w, .advance r.id reply, v⟩ = []) := by
  cases advanceRun_strode h with
  | stride book hs =>
    refine .inr ⟨fun hp => ?_, requested_stride hs⟩
    have hearly := hs.early
    rw [hp] at hearly
    cases hearly
  | requeued hp => exact .inl ⟨hp, rfl, rfl, requested_requeue hw hr⟩
  | ended hp => exact .inr ⟨hp ▸ nofun, requested_exit w r⟩

/-- A run puts its job back once at most in one step, and the job is its own. -/
theorem requested_of_own (hw : Reachable config w) (hs : w.step l = some v)
    (hm : Moment.isOf ⟨w, l, v⟩ n = true) :
    ∃ r ∈ w.runs, r.id = n ∧
      (Moment.requested ⟨w, l, v⟩ = [] ∨ Moment.requested ⟨w, l, v⟩ = [w.retry r]) := by
  obtain ⟨reply, rfl⟩ := Moment.isOf_iff.mp hm
  obtain ⟨r, hr, rfl, hrun⟩ := advance_of_step hs
  refine ⟨r, hr, rfl, ?_⟩
  rcases requested_advance hw hr hrun with ⟨_, _, _, hreq⟩ | ⟨_, hreq⟩
  · rw [hreq]
    split
    · exact .inl rfl
    · exact .inr rfl
  · exact .inl hreq

/-! ## The delay -/

theorem Quiet.config_eq {u : Worker} (h : Quiet u v) : v.config = u.config := by
  cases h
  rfl

theorem Looked.config_eq {s : Submission} (h : Looked w s v) : v.config = w.config := by
  cases h with
  | quiet hv => exact hv.config_eq
  | accepted => rfl

theorem config_advance {reply : Reply} (h : w.advanceRun? r reply = some v) :
    v.config = w.config := by
  cases advanceRun_strode h with
  | stride book hs =>
    rw [noted_eq]
    rfl
  | requeued =>
    exact (look_spec w
      { job := r.job, delay := w.config.retryDelay, attempts := w.config.submitAttempts }).config_eq
  | ended =>
    obtain ⟨tickets, keepAlive, hquiet⟩ := freed_spec w r
    rw [exit_eq]
    exact hquiet.config_eq

theorem config_of_step (h : w.step l = some v) : v.config = w.config := by
  cases step_footprint h with
  | quiet _ hv | hold hv | release hv => exact hv.config_eq
  | look s _ hv => exact hv.config_eq
  | dispatch view job _ hd =>
    cases hd with
    | detached claim s listeners custom =>
      have hheld := (quiet_hold
        ((w.withLoop { w.loop with picked := none }).admitting s listeners)).config_eq
      exact hheld
    | unstarted =>
      let admitted := (w.withLoop { w.loop with picked := none }).admitting w.inFlight w.listeners
      obtain ⟨u, hquiet, he⟩ := unstarted_spec admitted job
      exact (congrArg Worker.config he).trans hquiet.config_eq
    | _ => rfl
  | advance r reply _ ha => exact config_advance ha
  | _ => rfl

theorem config_eq (h : Reachable config w) : w.config = config :=
  h.induction (P := fun w => w.config = config) rfl fun _ _ _ _ ih hs =>
    (config_of_step hs).trans ih

end Worker

end Outbox
