import Mathlib.Data.List.Nodup
import Outbox.Proofs.Delivery.Once

/-! # Postings that come first

Jobs that are posted before all else and without delay precede all else, also what was posted at
the same instant. So of what was dispatched they are the first: `Delivered.replayed_first`, and
`first_handed` reads the jobs back. -/
namespace Outbox
set_option autoImplicit false

/-- A pending job as the loop posts it when it prepares. -/
def Posting.pending (t : Instant) (job : Job) : Posting := ⟨t, .zero, .request job⟩

/-! ## First in the order of due times -/

theorem Instant.after_zero_le {t u : Instant} (h : t ≤ u) (d : Duration) :
    after t .zero ≤ after u d := by
  by_cases ht : t + Duration.zero.nanos < limit
  · rw [after_eq_add ht]
    exact Nat.le_trans h (Course.le_due u d)
  · -- The clock can count neither delay, and both end equally late.
    have hu : ¬ u + d.nanos < limit := fun hu =>
      ht (Nat.lt_of_le_of_lt (Nat.le_trans h (Nat.le_add_right u _)) hu)
    unfold after plus?
    rw [if_neg ht, if_neg hu]
    exact Nat.add_le_add_right h _

section Replayed
variable {jobs : List Job} {t : Instant} {rest : List Posting}

theorem getElem?_replayed {i : Nat} (hi : i < jobs.length) :
    (jobs.map (Posting.pending t) ++ rest)[i]? = some (.pending t jobs[i]) := by
  rw [List.getElem?_append_left ((List.length_map _).symm ▸ hi), List.getElem?_map,
    List.getElem?_eq_getElem hi]
  rfl

theorem precedes_of_replayed
    (ht : (jobs.map (Posting.pending t) ++ rest).Pairwise (·.time ≤ ·.time)) {i j : Nat}
    (hi : i < jobs.length) (hij : i < j) {q : Posting}
    (hq : (jobs.map (Posting.pending t) ++ rest)[j]? = some q) :
    Precedes (jobs.map (Posting.pending t) ++ rest) i j := by
  have hp : (jobs.map (Posting.pending t) ++ rest)[i]? = some (.pending t jobs[i]) :=
    getElem?_replayed hi
  obtain ⟨hilt, hpi⟩ := List.getElem?_eq_some_iff.mp hp
  obtain ⟨hjlt, hqj⟩ := List.getElem?_eq_some_iff.mp hq
  have htime := List.pairwise_iff_getElem.mp ht i j hilt hjlt hij
  rw [hpi, hqj] at htime
  refine ⟨_, q, hp, hq, ?_⟩
  rcases Nat.lt_or_eq_of_le (Instant.after_zero_le htime q.delay) with hlt | heq
  · exact .inl hlt
  · exact .inr ⟨heq, hij⟩

end Replayed

/-- If no place below `n` is skipped and those come in their order, then they come first. -/
theorem range_append_of {n : Nat} (is : List Nat) {k : Nat} (hk : k ≤ n) (hge : ∀ i ∈ is, k ≤ i)
    (hskip : ∀ j ∈ is, ∀ i, k ≤ i → i < n → i < j → i ∈ is)
    (hsorted : is.Pairwise fun i j => j < n → i < j) :
    ∃ m later, is = List.range' k m ++ later ∧ k + m ≤ n ∧ (∀ i ∈ later, n ≤ i) ∧
      (later ≠ [] → k + m = n) := by
  induction is generalizing k with
  | nil => exact ⟨0, [], rfl, hk, List.forall_mem_nil _, fun h => absurd rfl h⟩
  | cons a is ih =>
    rcases Nat.lt_or_eq_of_le hk with hlt | rfl
    · obtain ⟨hfirst, hrest⟩ := List.pairwise_cons.mp hsorted
      have ha : a = k := by
        rcases Nat.lt_or_eq_of_le (hge a List.mem_cons_self) with hka | hka
        · rcases List.mem_cons.mp (hskip a List.mem_cons_self k (Nat.le_refl k) hlt hka) with h | h
          · exact h.symm
          · exact absurd (hfirst k h hlt) (Nat.not_lt.mpr (Nat.le_of_lt hka))
        · exact hka.symm
      subst ha
      have hge' : ∀ i ∈ is, a + 1 ≤ i := by
        intro i hi
        rcases Nat.lt_or_eq_of_le (hge i (List.mem_cons_of_mem _ hi)) with hai | rfl
        · exact hai
        · exact absurd (hfirst a hi hlt) (Nat.lt_irrefl a)
      have hskip' : ∀ j ∈ is, ∀ i, a + 1 ≤ i → i < n → i < j → i ∈ is := by
        intro j hj i hai hin hij
        have hmem := hskip j (List.mem_cons_of_mem _ hj) i (Nat.le_of_succ_le hai) hin hij
        exact (List.mem_cons.mp hmem).resolve_left (Nat.ne_of_gt hai)
      obtain ⟨m, later, he, hm, hlater, hall⟩ := ih hlt hge' hskip' hrest
      have hcount : a + (m + 1) = a + 1 + m := by omega
      refine ⟨m + 1, later, ?_, hcount ▸ hm, hlater, fun h => hcount ▸ hall h⟩
      rw [he]
      rfl
    · exact ⟨0, a :: is, rfl, Nat.le_refl k, hge, fun _ => rfl⟩

/-- What is found at the first places, read off one by one. -/
theorem map_eq_take {α β : Type} {f : β → α} {xs : List α} {ys : List β} {m : Nat}
    (h : List.Forall₂ (fun i y => xs[i]? = some (f y)) (List.range m) ys) :
    ys.map f = xs.take m := by
  have hlen : m = ys.length := List.length_range.symm.trans h.length_eq
  refine List.ext_getElem? fun i => ?_
  rw [List.getElem?_map, List.getElem?_take]
  split
  · rename_i hi
    have hy := h.get (List.length_range.symm ▸ hi) (hlen ▸ hi)
    rw [List.get_eq_getElem, List.getElem_range] at hy
    rw [List.getElem?_eq_getElem (hlen ▸ hi), hy]
    rfl
  · rename_i hi
    rw [List.getElem?_eq_none (hlen ▸ Nat.le_of_not_lt hi)]
    rfl

namespace Delivered
variable {jobs : List Job} {t : Instant} {rest : List Posting} {gs : List Handling}
  {ds : List Handover} {handled dispatched later : List Nat}
  (h : Delivered (jobs.map (Posting.pending t) ++ rest) gs ds handled dispatched)
include h

theorem replayed_first :
    ∃ later, dispatched = List.range (min ds.length jobs.length) ++ later ∧
      ∀ i ∈ later, jobs.length ≤ i := by
  have hget : ∀ j ∈ dispatched, ∃ q, (jobs.map (Posting.pending t) ++ rest)[j]? = some q := by
    intro j hj
    obtain ⟨⟨k, hk⟩, rfl⟩ := List.mem_iff_get.mp hj
    obtain ⟨q, _, hq, _⟩ := h.dispatched_posted.get hk (h.dispatched_posted.length_eq ▸ hk)
    exact ⟨q, hq⟩
  have hskip : ∀ j ∈ dispatched, ∀ i, 0 ≤ i → i < jobs.length → i < j → i ∈ dispatched := by
    intro j hj i _ hi hij
    obtain ⟨q, hq⟩ := hget j hj
    exact h.none_skipped j hj i _ _ (getElem?_replayed hi) rfl
      (precedes_of_replayed h.times hi hij hq)
  have hsorted : dispatched.Pairwise fun i j => j < jobs.length → i < j := by
    refine (h.in_order.sublist h.dispatched_handled).imp fun {i j} hij hj => ?_
    by_contra hge
    rcases Nat.lt_or_eq_of_le (Nat.le_of_not_lt hge) with hlt | rfl
    · have hnot := hij.asymm
      obtain ⟨p, _, hp, _⟩ := hij
      exact hnot (precedes_of_replayed h.times hj hlt hp)
    · exact hij.asymm hij
  obtain ⟨done, later, he, hle, hlater, hall⟩ :=
    range_append_of dispatched (Nat.zero_le _) (fun i _ => Nat.zero_le i) hskip hsorted
  rw [Nat.zero_add] at hle hall
  rw [← List.range_eq_range'] at he
  have hlen : ds.length = done + later.length := by
    rw [← h.dispatched_posted.length_eq, he, List.length_append, List.length_range]
  have hdone : done = min ds.length jobs.length := by
    cases later with
    | nil => exact hlen ▸ (Nat.min_eq_left hle).symm
    | cons i later =>
      have hfull := hall (List.cons_ne_nil i later)
      omega
  exact ⟨later, hdone ▸ he, hlater⟩

theorem first_handed (he : dispatched = List.range (min ds.length jobs.length) ++ later) :
    (ds.take jobs.length).map Handover.job = (jobs.take ds.length).map Job.id := by
  have hposted := List.forall₂_take (min ds.length jobs.length) (he ▸ h.dispatched_posted)
  rw [List.take_left' List.length_range] at hposted
  have hmem : ∀ i ∈ List.range (min ds.length jobs.length), i < jobs.length := fun i hi =>
    Nat.lt_of_lt_of_le (List.mem_range.mp hi) (Nat.min_le_right _ _)
  have hds : ds.take (min ds.length jobs.length) = ds.take jobs.length :=
    List.take_eq_take_iff.mpr (by omega)
  have hjobs : jobs.take (min ds.length jobs.length) = jobs.take ds.length :=
    List.take_eq_take_iff.mpr (by omega)
  rw [← hds, ← hjobs]
  refine (map_eq_take (((List.forall₂_and_left _ _).mpr ⟨hmem, hposted⟩).imp ?_)).trans
    List.map_take.symm
  rintro i d ⟨hi, p, job, hp, hjob, hd, _⟩
  cases (getElem?_replayed hi).symm.trans hp
  cases hjob
  rw [List.getElem?_map, List.getElem?_eq_getElem hi, hd]
  rfl

theorem others_handed (he : dispatched = List.range (min ds.length jobs.length) ++ later)
    (hlater : ∀ i ∈ later, jobs.length ≤ i) :
    List.Forall₂ (fun i d => ∃ p job, rest[i]? = some p ∧ p.message = .request job ∧
      d.job = job.id) (later.map (· - jobs.length)) (ds.drop jobs.length) := by
  have hdrop : ds.drop (min ds.length jobs.length) = ds.drop jobs.length := by
    rcases Nat.le_total ds.length jobs.length with hle | hle
    · rw [Nat.min_eq_left hle, List.drop_length, List.drop_of_length_le hle]
    · rw [Nat.min_eq_right hle]
  have hposted := List.forall₂_drop (min ds.length jobs.length) (he ▸ h.dispatched_posted)
  rw [List.drop_left' List.length_range, hdrop] at hposted
  refine List.forall₂_map_left_iff.mpr (((List.forall₂_and_left _ _).mpr ⟨hlater, hposted⟩).imp ?_)
  rintro i d ⟨hi, p, job, hp, hjob, hd, _⟩
  rw [List.getElem?_append_right ((List.length_map _).symm ▸ hi), List.length_map] at hp
  exact ⟨p, job, hp, hjob, hd⟩

theorem others_once (he : dispatched = List.range (min ds.length jobs.length) ++ later)
    (hlater : ∀ i ∈ later, jobs.length ≤ i) : (later.map (· - jobs.length)).Nodup := by
  have hn : later.Nodup := (List.nodup_append.mp (he ▸ h.nodup)).2.1
  refine List.Nodup.map_on (fun i hi j hj hij => ?_) hn
  have hi' := hlater i hi
  have hj' := hlater j hj
  omega

end Delivered

end Outbox
