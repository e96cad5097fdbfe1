import Mathlib.Data.List.Perm.Subperm
import Outbox.Proofs.Retries.Exact

/-! # How often a job is run

Every posting of a job comes to dispatch once, so once the loop is at rest a job was run, dropped or
left without an executor as often as it was submitted or put back. Nothing else bounds how often it
is run. Main statements: `runs_of_job` and `retried_exactly_if_voted`. -/
namespace Outbox
set_option autoImplicit false

/-- The posting asks for a run of the job. -/
def Posting.asksFor (job : JobId) (p : Posting) : Bool := p.request? == some job

def Event.drops (job : JobId) : Event → Bool
  | .dropped j _ => j == job
  | _ => false

def Event.strands (job : JobId) : Event → Bool
  | .unstarted j => j == job
  | _ => false

def Label.isAdvance : Label → Bool
  | .advance _ _ => true
  | _ => false

theorem countP_getElem? {α : Type} (p : α → Bool) (xs : List α) :
    (List.range xs.length).countP (fun i => xs[i]?.any p) = xs.countP p := by
  induction xs using List.reverseRecOn with
  | nil => rfl
  | append_singleton xs x ih =>
    have hold : ∀ i ∈ List.range xs.length,
        (xs ++ [x])[i]?.any p = true ↔ xs[i]?.any p = true := by
      intro i hi
      rw [List.getElem?_append_left (List.mem_range.mp hi)]
    rw [List.length_append, List.length_singleton, List.range_succ, List.countP_append,
      List.countP_congr hold, ih, List.countP_append]
    simp

/-- Relations that agree on two properties have as many members with the one as with the other. -/
theorem countP_eq_of_forall₂ {α β : Type} {R : α → β → Prop} {p : α → Bool} {q : β → Bool}
    {xs : List α} {ys : List β} (hall : List.Forall₂ R xs ys) (hpq : ∀ x y, R x y → p x = q y) :
    xs.countP p = ys.countP q := by
  induction hall with
  | nil => rfl
  | cons hxy _ ih => rw [List.countP_cons, List.countP_cons, ih, hpq _ _ hxy]

namespace Delivered
variable {ps : List Posting} {gs : List Handling} {ds : List Handover} {hs is : List Nat}

/-- If no posting of the job is left, it was handed over as often as it was posted. -/
theorem handed_eq_posted (hd : Delivered ps gs ds hs is) {job : JobId}
    (hall : ∀ i p, ps[i]? = some p → p.asksFor job = true → i ∈ is) :
    ds.countP (·.job == job) = ps.countP (·.asksFor job) := by
  have hsame : ∀ (i : Nat) (d : Handover), (∃ (p : Posting) (j : Job), ps[i]? = some p ∧
      p.message = .request j ∧ d.job = j.id ∧ p.due ≤ d.time) →
        ps[i]?.any (·.asksFor job) = (d.job == job) := by
    rintro i d ⟨p, j, hp, hj, hid, _⟩
    rw [hp, hid]
    change p.asksFor job = _
    rw [Posting.asksFor, Posting.request?, hj]
    rfl
  have hplaces : (is.filter fun i => ps[i]?.any (·.asksFor job)).Perm
      ((List.range ps.length).filter fun i => ps[i]?.any (·.asksFor job)) := by
    refine (List.perm_ext_iff_of_nodup (hd.nodup.filter _) (List.nodup_range.filter _)).mpr ?_
    intro i
    rw [List.mem_filter, List.mem_filter, List.mem_range]
    refine and_congr_left fun hi => ?_
    obtain ⟨p, hp, hask⟩ := (Option.any_eq_true _ _).mp hi
    exact ⟨fun _ => (List.getElem?_eq_some_iff.mp hp).1, fun _ => hall i p hp hask⟩
  rw [← countP_eq_of_forall₂ hd.dispatched_posted hsame,
    ← countP_getElem? (·.asksFor job) ps, List.countP_eq_length_filter,
    List.countP_eq_length_filter]
  exact hplaces.length_eq

end Delivered

namespace Worker
variable {config : Config} {h : List Moment} {w v : Worker} {l : Label} {n : Nat} {job : JobId}

/-! ## Runs and drops -/

/-- The runs of the job, first begun first. -/
def runsOf (w : Worker) (job : JobId) : List Nat :=
  (w.begun.filter (·.job == job)).map Beginning.run

def dropsOf (w : Worker) (job : JobId) : Nat := w.journal.countP (·.event.drops job)

/-- How often an executor for the job could not be started. -/
def strandingsOf (w : Worker) (job : JobId) : Nat := w.journal.countP (·.event.strands job)

theorem handed_eq_runs_add_drops (w : Worker) (job : JobId) :
    w.handovers.countP (·.job == job) =
      (w.runsOf job).length + w.dropsOf job + w.strandingsOf job := by
  rw [runsOf, List.length_map, ← List.countP_eq_length_filter, begun, handovers, dropsOf,
    strandingsOf, List.countP_reverse, List.countP_reverse]
  induction w.journal with
  | nil => rfl
  | cons e journal ih =>
    obtain ⟨time, event⟩ := e
    cases event with
    | begun | dropped | unstarted =>
      simp only [List.filterMap_cons, JournalEntry.handover?, Event.begun?, Event.drops,
        Event.strands, List.countP_cons, ih, Bool.false_eq_true, if_false]
      omega
    | _ => exact ih

/-! ## Submissions and retries -/

/-- How often somebody else than a run posted the job. -/
def submissionsOf (h : List Moment) (job : JobId) : Nat :=
  ((h.filter (!·.label.isAdvance)).flatMap Moment.requested).countP (·.asksFor job)

/-- The run that puts the job back in this step. -/
def Moment.putsBack? (m : Moment) (job : JobId) : Option Nat :=
  match m.label with
  | .advance run _ => if m.requested.any (·.asksFor job) then some run else none
  | _ => none

/-- The runs that have put the job back, in the order in which they did. -/
def retriesOf (h : List Moment) (job : JobId) : List Nat := h.filterMap (·.putsBack? job)

theorem isRequest_of_asksFor {p : Posting} (hp : p.asksFor job = true) : p.isRequest = true := by
  rw [Posting.isRequest, beq_iff_eq.mp hp]
  rfl

/-- What a step posts is added to what was posted before. -/
theorem posted_of_step (hs : w.step l = some v) (job : JobId) :
    v.postings.countP (·.asksFor job) =
      w.postings.countP (·.asksFor job) + (Moment.requested ⟨w, l, v⟩).countP (·.asksFor job) := by
  have hnews : ∃ news, v.journal = news ++ w.journal := by
    rcases step_onward hs with ⟨_, _, rfl⟩ | ho
    · exact ⟨w.farewell, rfl⟩
    · obtain ⟨news, hj, _⟩ := ho.news
      exact ⟨news, hj⟩
  obtain ⟨news, hj⟩ := hnews
  rw [requested_of_news hj, postings_of_news hj, List.countP_append, List.countP_filter]
  refine congrArg (_ + ·) (List.countP_congr fun p _ => ?_)
  rw [Bool.and_eq_true]
  exact ⟨fun hp => ⟨hp, isRequest_of_asksFor hp⟩, And.left⟩

theorem posted_eq {ls : List Label} (hs : (create config 0).steps ls = some w) (job : JobId) :
    w.postings.countP (·.asksFor job) = submissionsOf ((create config 0).history ls) job +
      (retriesOf ((create config 0).history ls) job).length := by
  refine history_induction (P := fun h w => w.postings.countP (·.asksFor job) =
    submissionsOf h job + (retriesOf h job).length) rfl ?_ hs
  intro h u l v hu ih hl
  have hposted := posted_of_step hl job
  rw [submissionsOf, retriesOf, List.filter_append, List.flatMap_append, List.countP_append,
    List.filterMap_append, List.length_append, ← submissionsOf, ← retriesOf, hposted, ih]
  cases hown : l.isAdvance with
  | false =>
    have hnone : Moment.putsBack? ⟨u, l, v⟩ job = none := by
      unfold Moment.putsBack?
      split
      · rename_i run reply hlabel
        have hlabel : l = .advance run reply := hlabel
        rw [hlabel] at hown
        cases hown
      · rfl
    have hkept : [Moment.mk u l v].filter (!·.label.isAdvance) = [⟨u, l, v⟩] :=
      List.filter_cons_of_pos (by rw [hown]; rfl)
    rw [hkept, List.flatMap_singleton, List.filterMap_cons, hnone]
    change _ = _ + (_ + 0)
    omega
  | true =>
    have hleft : [Moment.mk u l v].filter (!·.label.isAdvance) = [] :=
      List.filter_cons_of_neg (by rw [hown]; exact Bool.false_ne_true)
    cases l with
    | advance run reply =>
      obtain ⟨r, _, _, hreq⟩ := requested_of_own hu hl (Moment.isOf_iff.mpr ⟨reply, rfl⟩)
      rw [hleft, List.flatMap_nil, List.countP_nil, List.filterMap_cons, Moment.putsBack?]
      rcases hreq with hreq | hreq
      · rw [hreq]
        rfl
      · cases hask : (u.retry r).asksFor job with
        | false => simp [hreq, hask]
        | true =>
          simp only [hreq, List.any_cons, List.any_nil, List.countP_cons, List.countP_nil, hask]
          exact Nat.add_assoc _ _ _
    | _ => cases hown

/-! ## Who puts the job back -/

theorem mem_retriesOf {h : List Moment} :
    n ∈ retriesOf h job ↔ ∃ p ∈ retries h n, p.asksFor job = true := by
  simp only [retriesOf, retries, List.mem_filterMap, List.mem_flatMap, List.mem_filter]
  constructor
  · rintro ⟨m, hm, hback⟩
    unfold Moment.putsBack? at hback
    split at hback
    · rename_i run reply hl
      split at hback
      · rename_i hany
        cases hback
        obtain ⟨p, hp, hask⟩ := List.any_eq_true.mp hany
        exact ⟨p, ⟨m, ⟨hm, Moment.isOf_iff.mpr ⟨reply, hl⟩⟩, hp⟩, hask⟩
      · cases hback
    · cases hback
  · rintro ⟨p, ⟨m, ⟨hm, hown⟩, hp⟩, hask⟩
    obtain ⟨reply, hl⟩ := Moment.isOf_iff.mp hown
    refine ⟨m, hm, ?_⟩
    rw [Moment.putsBack?, hl]
    exact if_pos (List.any_eq_true.mpr ⟨p, hp, hask⟩)

theorem count_retriesOf_le (h : List Moment) (job : JobId) (n : Nat) :
    (retriesOf h job).count n ≤ (retries h n).length := by
  induction h using List.reverseRecOn with
  | nil => exact Nat.le_refl 0
  | append_singleton h m ih =>
    rw [retriesOf, List.filterMap_append, List.count_append, ← retriesOf, retries_snoc,
      List.length_append]
    refine Nat.add_le_add ih ?_
    rw [List.filterMap_cons, List.filterMap_nil]
    cases hback : m.putsBack? job with
    | none => exact Nat.zero_le _
    | some k =>
      by_cases hk : k = n
      · subst hk
        obtain ⟨p, hp, _⟩ := mem_retriesOf.mp (List.mem_filterMap.mpr
          ⟨m, List.mem_singleton_self m, hback⟩)
        have hone : retries [m] k = if m.isOf k then m.requested else [] := by
          have hsnoc := retries_snoc [] m k
          exact hsnoc
        rw [hone] at hp
        have hlength := List.length_pos_of_mem hp
        rw [List.count_singleton_self]
        exact hlength
      · rw [List.count_cons_of_ne hk]
        exact Nat.zero_le _

/-- What is put back is the job of a run that was live. -/
theorem run_of_retry {ls : List Label} {p : Posting}
    (hp : p ∈ retries ((create config 0).history ls) n) :
    ∃ r, Lived ((create config 0).history ls) w r ∧ r.id = n ∧ p.message = .request r.job := by
  obtain ⟨m, hm, hp⟩ := List.mem_flatMap.mp hp
  obtain ⟨hm, hown⟩ := List.mem_filter.mp hm
  obtain ⟨hw, hstep⟩ := reachable_of_mem_history hm
  obtain ⟨r, hr, hid, hnone | hone⟩ := requested_of_own hw hstep hown
  · have hnone : m.requested = [] := hnone
    rw [hnone] at hp
    cases hp
  · have hone : m.requested = [m.source.retry r] := hone
    rw [hone] at hp
    obtain rfl := List.mem_singleton.mp hp
    exact ⟨r, .inr ⟨m, hm, hr⟩, hid, rfl⟩

section
variable {ls : List Label} (hs : (create config 0).steps ls = some w)
include hs

theorem retriesOf_nodup (job : JobId) :
    (retriesOf ((create config 0).history ls) job).Nodup := by
  refine List.nodup_iff_count_le_one.mpr fun n => ?_
  refine Nat.le_trans (count_retriesOf_le _ job n) ?_
  cases hlist : retries ((create config 0).history ls) n with
  | nil => exact Nat.zero_le 1
  | cons p ps =>
    obtain ⟨r, hr, rfl, _⟩ := run_of_retry (w := w) (hlist ▸ List.mem_cons_self)
    obtain ⟨hnone | ⟨q, hone, _⟩, _⟩ := retries_of_lived hs hr
    · rw [hlist] at hnone
      cases hnone
    · rw [hlist] at hone
      rw [hone]
      exact Nat.le_refl 1

/-- Whatever was begun by some moment was begun. -/
theorem begun_of_lived {r : Run} (hr : Lived ((create config 0).history ls) w r) :
    r.beginning ∈ w.begun := by
  rcases hr with hr | ⟨m, hm, hr⟩
  · exact begun_of_live ⟨ls, hs⟩ hr
  · have hall : ∀ m ∈ (create config 0).history ls, m.source.begun ⊆ w.begun := by
      refine history_induction (P := fun h w => ∀ m ∈ h, m.source.begun ⊆ w.begun)
        (List.forall_mem_nil _) ?_ hs
      intro h u l v hu ih hl
      have hgrow : u.begun ⊆ v.begun := by
        cases step_begins (owned hu) hl with
        | none hb => exact fun b hmem => hb ▸ hmem
        | one view r _ _ hb => exact fun b hmem => hb ▸ List.mem_append_left _ hmem
      exact forall_mem_snoc (fun m hm => List.Subset.trans (ih m hm) hgrow) hgrow
    exact hall m hm (begun_of_live (reachable_of_mem_history hm).1 hr)

theorem mem_runsOf {r : Run} (hr : Lived ((create config 0).history ls) w r) :
    r.id ∈ w.runsOf job ↔ r.job.id = job := by
  have hmem := begun_of_lived hs hr
  constructor
  · intro hin
    obtain ⟨b, hb, hid⟩ := List.mem_map.mp hin
    obtain ⟨hb, hjob⟩ := List.mem_filter.mp hb
    obtain rfl := List.inj_on_of_nodup_map (begun_nodup ⟨ls, hs⟩) hb hmem hid
    exact beq_iff_eq.mp hjob
  · rintro rfl
    exact List.mem_map.mpr ⟨_, List.mem_filter.mpr ⟨hmem, beq_self_eq_true _⟩, rfl⟩

theorem runsOf_nodup (job : JobId) : (w.runsOf job).Nodup :=
  (begun_nodup ⟨ls, hs⟩).sublist (List.filter_sublist.map _)

theorem retriesOf_subset (job : JobId) :
    retriesOf ((create config 0).history ls) job ⊆ w.runsOf job := by
  intro n hn
  obtain ⟨p, hp, hask⟩ := mem_retriesOf.mp hn
  obtain ⟨r, hr, rfl, hmessage⟩ := run_of_retry (w := w) hp
  refine (mem_runsOf hs hr).mpr ?_
  rw [Posting.asksFor, Posting.request?, hmessage] at hask
  exact Option.some.inj (beq_iff_eq.mp hask)

/-! ## At rest -/

/-- Once the loop is at rest, with no posting of the job left to wait for, the job was run, dropped
or left without an executor as often as it was submitted or put back. -/
theorem runs_of_job (hfree : w.loopFree = true) (hrest : w.resting = true)
    (hdue : ∀ p ∈ w.postings, p.asksFor job = true → p.due ≤ w.now) :
    (w.runsOf job).length + w.dropsOf job + w.strandingsOf job =
      submissionsOf ((create config 0).history ls) job +
        (retriesOf ((create config 0).history ls) job).length := by
  obtain ⟨hstage, hpicked, _⟩ := loopFree_facts hfree
  obtain ⟨hletters, hlate⟩ := resting_facts hrest
  obtain ⟨_, _, hk⟩ := (phase ⟨ls, hs⟩).kept hstage
  obtain ⟨handled, dispatched, hd, hall⟩ := hk.delivered
  have hleft : ∀ i p, w.postings[i]? = some p → p.asksFor job = true → i ∈ dispatched := by
    intro i p hp hask
    have hrequest : ∃ j, p.message = .request j := by
      have hsome := isRequest_of_asksFor hask
      unfold Posting.isRequest Posting.request? at hsome
      cases hm : p.message with
      | request j => exact ⟨j, rfl⟩
      | _ =>
        rw [hm] at hsome
        cases hsome
    obtain ⟨j, hj⟩ := hrequest
    exact hall hpicked hletters hlate i p j hp hj (hdue p (List.mem_of_getElem? hp) hask)
  rw [← handed_eq_runs_add_drops, ← posted_eq hs]
  exact hd.handed_eq_posted hleft

/-! ## A chain of retries -/

theorem uninterrupted_before (hi : w.interrupted = false) {m : Moment}
    (hm : m ∈ (create config 0).history ls) : m.source.interrupted = false := by
  have hall : ∀ m ∈ (create config 0).history ls,
      m.source.interrupted = true → w.interrupted = true := by
    refine history_induction (P := fun h w => ∀ m ∈ h, m.source.interrupted = true →
      w.interrupted = true) (List.forall_mem_nil _) ?_ hs
    exact fun h u l v hu ih hl =>
      forall_mem_snoc (fun m hm hm' => interrupted_of_step (ih m hm hm') hl)
        fun hm' => interrupted_of_step hm' hl
  refine Bool.eq_false_iff.mpr fun hm' => ?_
  cases hi.symm.trans (hall m hm hm')

/-- A run of this number has failed for good, and somebody voted for its retry. -/
def FailsBacked (h : List Moment) (w : Worker) (n : Nat) : Prop :=
  ∃ r, Lived h w r ∧ r.id = n ∧ w.Through n ∧ Backed h w r

theorem mem_retriesOf_of_failsBacked (hi : w.interrupted = false) (hn : n ∈ w.runsOf job)
    (hf : FailsBacked ((create config 0).history ls) w n) :
    n ∈ retriesOf ((create config 0).history ls) job := by
  obtain ⟨r, hr, rfl, ht, hb⟩ := hf
  obtain ⟨hnone | ⟨p, hone, hp, _⟩, hexact⟩ := retries_of_lived hs hr
  · exact absurd ⟨hb, fun m hm _ => uninterrupted_before hs hi hm⟩ ((hexact ht).mp hnone)
  · refine mem_retriesOf.mpr ⟨p, hone ▸ List.mem_singleton_self p, ?_⟩
    rw [Posting.asksFor, Posting.request?, hp.message, ← (mem_runsOf hs hr).mp hn]
    exact beq_self_eq_true _

theorem failsBacked_of_mem_retriesOf (hn : n ∈ retriesOf ((create config 0).history ls) job) :
    ∃ r, Lived ((create config 0).history ls) w r ∧ r.id = n ∧
      Backed ((create config 0).history ls) w r := by
  obtain ⟨p, hp, _⟩ := mem_retriesOf.mp hn
  obtain ⟨r, hr, rfl, _⟩ := run_of_retry (w := w) hp
  obtain ⟨hnone | ⟨_, _, _, hb⟩, _⟩ := retries_of_lived hs hr
  · rw [hnone] at hp
    cases hp
  · exact ⟨r, hr, rfl, hb⟩

/-- Each of the first runs puts the job back, so there are no fewer retries. -/
theorem le_length_retriesOf (hi : w.interrupted = false) {k : Nat} (hk : k ≤ (w.runsOf job).length)
    (hfirst : ∀ n ∈ (w.runsOf job).take k, FailsBacked ((create config 0).history ls) w n) :
    k ≤ (retriesOf ((create config 0).history ls) job).length := by
  have hsub : (w.runsOf job).take k ⊆ retriesOf ((create config 0).history ls) job := fun n hn =>
    mem_retriesOf_of_failsBacked hs hi (List.mem_of_mem_take hn) (hfirst n hn)
  have hnodup := (runsOf_nodup hs job).sublist (List.take_sublist k _)
  have hle := (List.subperm_of_subset hnodup hsub).length_le
  rwa [List.length_take, Nat.min_eq_left hk] at hle

/-- And if the others do not, there are no more. -/
theorem length_retriesOf_le {k : Nat} (hrest : ∀ n ∈ (w.runsOf job).drop k, ∀ r,
      Lived ((create config 0).history ls) w r → r.id = n →
        ¬ Backed ((create config 0).history ls) w r) :
    (retriesOf ((create config 0).history ls) job).length ≤ k := by
  have hsub : retriesOf ((create config 0).history ls) job ⊆ (w.runsOf job).take k := by
    intro n hn
    have hin := retriesOf_subset hs job hn
    rw [← List.take_append_drop k (w.runsOf job), List.mem_append] at hin
    refine hin.resolve_right fun hlater => ?_
    obtain ⟨r, hr, hid, hb⟩ := failsBacked_of_mem_retriesOf hs hn
    exact hrest n hlater r hr hid hb
  have hle := (List.subperm_of_subset (retriesOf_nodup hs job) hsub).length_le
  exact Nat.le_trans hle (List.length_take_le k _)

/-- A job that was submitted once, and that neither a drop nor the lack of an executor ever kept from
running, is run once more than it was put back. -/
theorem runs_of_chain (hi : w.interrupted = false) (hfree : w.loopFree = true)
    (hrest : w.resting = true) (hdue : ∀ p ∈ w.postings, p.asksFor job = true → p.due ≤ w.now)
    (honce : submissionsOf ((create config 0).history ls) job = 1) (hkept : w.dropsOf job = 0)
    (hstarted : w.strandingsOf job = 0) (k : Nat)
    (hfirst : ∀ n ∈ (w.runsOf job).take k, FailsBacked ((create config 0).history ls) w n) :
    k + 1 ≤ (w.runsOf job).length ∧
      ((∀ n ∈ (w.runsOf job).drop k, ∀ r, Lived ((create config 0).history ls) w r → r.id = n →
        ¬ Backed ((create config 0).history ls) w r) → (w.runsOf job).length = k + 1) := by
  have hlaw := runs_of_job hs hfree hrest hdue
  rw [honce, hkept, hstarted, Nat.add_zero] at hlaw
  have hmore : k + 1 ≤ (w.runsOf job).length := by
    rcases Nat.le_total k (w.runsOf job).length with hk | hk
    · have hle := le_length_retriesOf hs hi hk hfirst
      omega
    · -- All runs would have put the job back, and then there would be one more.
      rw [List.take_of_length_le hk] at hfirst
      have hle := le_length_retriesOf hs hi (Nat.le_refl _) fun n hn =>
        hfirst n (List.mem_of_mem_take hn)
      omega
  refine ⟨hmore, fun hlater => ?_⟩
  have hle := length_retriesOf_le hs hlater
  omega

end

/-- A run that fails puts its job back once at most, however many listeners vote: the posting is due
no earlier than the retry delay after the failure, or ten years after it if the clock cannot count
as far as the delay goes, and one of those who were registered on the job's own lane when the
failure was reported has voted for it. A run that is through has put its job back just if one of
them voted so, unless the worker was shut down before the run came to it. Nothing bounds the number
of retries: once the loop is at rest, with no posting of the job left to wait for, the job was run,
dropped or left without an executor as often as it was submitted or put back, and a job that was
submitted once, that was never dropped and whose executors could be started, and whose first `k`
runs failed with a vote for a retry, has been run at least `k + 1` times, and no more if its other
runs were not voted for. Every run on an executor gets a handle that no run had before it, not
canceled and observed by its job. -/
theorem retried_exactly_if_voted {ls : List Label} (hs : (create config 0).steps ls = some w) :
    (∀ r, Lived ((create config 0).history ls) w r →
      (retries ((create config 0).history ls) r.id = [] ∨
        ∃ p, retries ((create config 0).history ls) r.id = [p] ∧
          PutsBack config ((create config 0).history ls) r p ∧
          Backed ((create config 0).history ls) w r) ∧
      (w.Through r.id → (retries ((create config 0).history ls) r.id = [] ↔
        ¬ (Backed ((create config 0).history ls) w r ∧
          ∀ m ∈ (create config 0).history ls, m.Resubmits r.id →
            m.source.interrupted = false)))) ∧
    (∀ job, w.loopFree = true → w.resting = true →
      (∀ p ∈ w.postings, p.asksFor job = true → p.due ≤ w.now) →
      (w.runsOf job).length + w.dropsOf job + w.strandingsOf job =
        submissionsOf ((create config 0).history ls) job +
          (retriesOf ((create config 0).history ls) job).length ∧
      (w.interrupted = false → submissionsOf ((create config 0).history ls) job = 1 →
        w.dropsOf job = 0 → w.strandingsOf job = 0 → ∀ k,
        (∀ n ∈ (w.runsOf job).take k, FailsBacked ((create config 0).history ls) w n) →
        k + 1 ≤ (w.runsOf job).length ∧
        ((∀ n ∈ (w.runsOf job).drop k, ∀ r, Lived ((create config 0).history ls) w r → r.id = n →
          ¬ Backed ((create config 0).history ls) w r) → (w.runsOf job).length = k + 1))) ∧
    ∀ m ∈ (create config 0).history ls, ∀ r ∈ m.target.runs, r.id = m.source.lastRun + 1 →
      r.job.lane = .detached → r.kind ≠ .refused →
        ∃ ticket handle, r.kind = .detached ticket handle ∧ m.Attaches r.job.id handle := by
  refine ⟨fun r hr => retries_of_lived hs hr, fun job hfree hrest hdue => ⟨?_, ?_⟩, ?_⟩
  · exact runs_of_job hs hfree hrest hdue
  · exact fun hi honce hkept hstarted =>
      runs_of_chain hs hi hfree hrest hdue honce hkept hstarted
  · intro m hm r hr hid hl hk
    obtain ⟨hw, hstep⟩ := reachable_of_mem_history hm
    exact launched_fresh hw hstep hr hid hl hk

/-- A worker that retries at once. -/
def eager : Worker := create { retryDelay := .zero } 0

def stubborn : Job where
  id := .ofNat 1
  isAsync := true
  plan := .finish (.error .disconnected)

/-- The run fails and its listener votes; a vote for a retry puts the job back. -/
def failingWith (run : Nat) (vote : Bool) : List Label :=
  advancing run 6 ++ [.advance run (.vote vote)] ++ advancing run (if vote then 3 else 2)

/-- The loop takes up what was put back. -/
def takingUp : List Label := [.iterate, .dispatch ⟨true, false, true⟩, .iterate, .iterate]

/-- The listener of an executor votes twice for a retry and then against it. -/
def stubbornly : List Label :=
  opening ++ [.addListener .detached "retry"] ++ launching stubborn ++ failingWith 1 true ++
    takingUp ++ failingWith 2 true ++ takingUp ++ failingWith 3 false ++ [.iterate, .iterate]

theorem stubborn_runs_three_times :
    ∃ w, eager.steps stubbornly = some w ∧
      submissionsOf (eager.history stubbornly) stubborn.id = 1 ∧
      (∀ n ∈ (w.runsOf stubborn.id).take 2, FailsBacked (eager.history stubbornly) w n) ∧
      2 + 1 ≤ (w.runsOf stubborn.id).length ∧ retries (eager.history stubbornly) 3 = [] := by
  have h : ∃ w, eager.steps stubbornly = some w ∧ w.loopFree = true ∧ w.resting = true ∧
      w.interrupted = false ∧ w.runs = [] ∧ w.lastRun = 3 ∧ w.runsOf stubborn.id = [1, 2, 3] ∧
      w.dropsOf stubborn.id = 0 ∧ w.strandingsOf stubborn.id = 0 ∧ w.postings.all (fun p => decide (p.due ≤ w.now)) = true :=
    ⟨_, rfl, rfl, rfl, rfl, rfl, rfl, rfl, rfl, rfl, rfl⟩
  obtain ⟨w, hs, hfree, hrest, hi, hruns, hlast, hof, hkept, hstarted, hdue⟩ := h
  have honce : submissionsOf (eager.history stubbornly) stubborn.id = 1 := rfl
  obtain ⟨hexact, hcount, _⟩ := retried_exactly_if_voted hs
  -- A job that was put back was voted for.
  have hbacked : ∀ (i : Nat) m r, (eager.history stubbornly)[i]? = some m →
      m.source.runs[0]? = some r → r.id ≤ 3 → (retries (eager.history stubbornly) r.id).length = 1 →
        FailsBacked (eager.history stubbornly) w r.id := by
    intro i m r hm hr hle hlength
    have hlived : Lived (eager.history stubbornly) w r :=
      .inr ⟨m, List.mem_of_getElem? hm, List.mem_of_getElem? hr⟩
    have hgone : ∀ q ∈ w.runs, q.id ≠ r.id := by
      rw [hruns]
      exact List.forall_mem_nil _
    refine ⟨r, hlived, rfl, .of_gone (hlast ▸ hle) hgone, ?_⟩
    obtain ⟨hempty | ⟨_, _, _, hb⟩, _⟩ := hexact r hlived
    · exact absurd hempty (List.ne_nil_of_length_pos (hlength ▸ Nat.one_pos))
    · exact hb
  have hfirst : ∀ n ∈ (w.runsOf stubborn.id).take 2,
      FailsBacked (eager.history stubbornly) w n := by
    rw [hof]
    exact List.forall_mem_cons.mpr ⟨hbacked 12 _ _ rfl rfl (by decide) rfl,
      List.forall_mem_singleton.mpr (hbacked 25 _ _ rfl rfl (by decide) rfl)⟩
  have hposted : ∀ p ∈ w.postings, p.asksFor stubborn.id = true → p.due ≤ w.now :=
    fun p hp _ => of_decide_eq_true (List.all_eq_true.mp hdue p hp)
  obtain ⟨_, hchain⟩ := hcount stubborn.id hfree hrest hposted
  exact ⟨w, hs, honce, hfirst, (hchain hi honce hkept hstarted 2 hfirst).1, rfl⟩

/-- The executor has failed, and its only listener has voted for a retry. -/
def votedOnce : List Label :=
  opening ++ [.addListener .detached "retry"] ++ launching stubborn ++ advancing 1 6 ++
    [.advance 1 (.vote true)]

/-- The retry comes to dispatch, and there is no thread for its executor. -/
def stranded : List Label :=
  votedOnce ++ advancing 1 3 ++ [.iterate, .dispatch ⟨true, false, false⟩] ++
    List.replicate 4 .iterate

/-- A job for an executor, with a uri that names no message. -/
def misaddressed : Job where
  id := .ofNat 2
  isAsync := true
  message := some { uri := ⟨"content://messages/seven"⟩ }
  plan := .finish (.ok ⟨"sent"⟩)

/-- The listener votes for a retry of the job and then against it. -/
def misaddressedTwice : List Label :=
  opening ++ [.addListener .detached "retry"] ++ handing misaddressed ++
    [.dispatch ⟨true, false, true⟩] ++ advancing 1 2 ++ [.advance 1 (.vote true)] ++
    advancing 1 3 ++ [.iterate, .dispatch ⟨true, false, true⟩] ++ advancing 2 2 ++
    [.advance 2 (.vote false)] ++ advancing 2 2

/-- What keeps a job that was voted for from its retry. A shutdown after the last vote and before the
job is put back: nothing is put back. A retry delay that the clock cannot count: the job is due
before the delay is over. No thread for the executor: the retry is not dropped and yet not run. And
a retry of a job for an executor whose uri names no message is run, but gets no handle. -/
theorem voted_retries_can_fail :
    (∃ u w, eager.steps votedOnce = some u ∧ u.interrupted = false ∧
      (u.findRun? 1).map Run.phase = some (.blaming .disconnected [] true) ∧
      u.steps (.shutdown :: advancing 1 3) = some w ∧ w.runs = [] ∧
      ballots (w.chronicle 1) = [("retry", true)] ∧
      retries (eager.history (votedOnce ++ .shutdown :: advancing 1 3)) 1 = []) ∧
    (∃ w p, (create { retryDelay := .longest } 0).steps (votedOnce ++ advancing 1 3) = some w ∧
      ballots (w.chronicle 1) = [("retry", true)] ∧ w.interrupted = false ∧ w.now = 0 ∧
      retries ((create { retryDelay := .longest } 0).history (votedOnce ++ advancing 1 3)) 1 = [p] ∧
      p.due < 0 + Duration.longest.nanos) ∧
    (∃ w, eager.steps stranded = some w ∧ w.interrupted = false ∧ w.loopFree = true ∧
      w.resting = true ∧
      ballots (w.chronicle 1) = [("retry", true)] ∧
      retriesOf (eager.history stranded) stubborn.id = [1] ∧ w.dropsOf stubborn.id = 0 ∧
      w.runsOf stubborn.id = [1]) ∧
    ∃ w, eager.steps misaddressedTwice = some w ∧ w.interrupted = false ∧
      misaddressed.lane = .detached ∧
      retriesOf (eager.history misaddressedTwice) misaddressed.id = [1] ∧
      w.runsOf misaddressed.id = [1, 2] ∧ (w.book.get misaddressed.id).execution = none := by
  refine ⟨⟨_, _, rfl, rfl, rfl, rfl, rfl, rfl, rfl⟩, ⟨_, _, rfl, rfl, rfl, rfl, rfl, ?_⟩,
    ⟨_, rfl, rfl, rfl, rfl, rfl, rfl, rfl, rfl⟩, ⟨_, rfl, rfl, rfl, rfl, rfl, rfl⟩⟩
  decide

end Worker

end Outbox
