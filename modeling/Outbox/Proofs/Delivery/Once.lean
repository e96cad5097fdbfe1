import Outbox.Proofs.Delivery.Order

/-! # Every message at most once, in order

What was handled and what was handed to dispatch, read back as places in the list of postings:
`Delivered` says that each place occurs once at most, not before its time and in the order of due
times and posting. -/
namespace Outbox
set_option autoImplicit false

/-- The clock can count to the end of the delay. -/
def Posting.OnClock (p : Posting) : Prop := p.time + p.delay.nanos < Instant.limit

theorem Posting.due_of_not_onClock {p : Posting} (h : ¬ p.OnClock) :
    p.due = p.time + Duration.farFuture.nanos := by
  unfold OnClock at h
  simp [due, Instant.after, Instant.plus?, h]

theorem Posting.due_eq {p : Posting} (h : p.OnClock) : p.due = p.time + p.delay.nanos :=
  Instant.after_eq_add h

/-- The posting at the first place is due earlier than the other, or at the same instant and was
posted earlier. -/
def Precedes (ps : List Posting) (i j : Nat) : Prop :=
  ∃ p q, ps[i]? = some p ∧ ps[j]? = some q ∧ (p.due < q.due ∨ p.due = q.due ∧ i < j)

theorem Precedes.asymm {ps : List Posting} {i j : Nat} (h : Precedes ps i j) : ¬ Precedes ps j i := by
  rintro ⟨q', p', hq', hp', hji⟩
  obtain ⟨p, q, hp, hq, hij⟩ := h
  cases hp.symm.trans hp'
  cases hq.symm.trans hq'
  grind

theorem precedes_of_delay_eq {ps : List Posting} (ht : ps.Pairwise (·.time ≤ ·.time)) {i j : Nat}
    {p q : Posting} (hp : ps[i]? = some p) (hq : ps[j]? = some q) (hd : p.delay = q.delay)
    (hon : q.OnClock) (hij : i < j) : Precedes ps i j := by
  obtain ⟨hi, rfl⟩ := List.getElem?_eq_some_iff.mp hp
  obtain ⟨hj, rfl⟩ := List.getElem?_eq_some_iff.mp hq
  have htime := List.pairwise_iff_getElem.mp ht i j hi hj hij
  have hq' := Posting.due_eq hon
  have hp' : ps[i].OnClock := by
    unfold Posting.OnClock at hon ⊢
    rw [hd]
    exact Nat.lt_of_le_of_lt (Nat.add_le_add_right htime _) hon
  refine ⟨_, _, hp, hq, ?_⟩
  rw [hq', Posting.due_eq hp', hd]
  rcases Nat.lt_or_eq_of_le htime with hlt | heq
  · exact .inl (Nat.add_lt_add_right hlt _)
  · exact .inr ⟨congrArg (· + _) heq, hij⟩

/-- `handled` and `dispatched` are the places among the postings `ps` of what was handled and of
what was handed to dispatch, in the order in which it was. -/
structure Delivered (ps : List Posting) (gs : List Handling) (ds : List Handover)
    (handled dispatched : List Nat) : Prop where
  /-- But for the idle timer's all messages handled were posted, and their times had come. -/
  handled_posted : List.Forall₂ (fun i g => ∃ p, ps[i]? = some p ∧ g.entry.item = p.message ∧
    g.entry.due = p.due ∧ p.due ≤ g.time) handled (gs.filter (!·.entry.item.isIdle))
  sorted : gs.Pairwise (·.entry.due ≤ ·.entry.due)
  in_order : handled.Pairwise (Precedes ps)
  dispatched_posted : List.Forall₂ (fun i d => ∃ p job, ps[i]? = some p ∧
    p.message = .request job ∧ d.job = job.id ∧ p.due ≤ d.time) dispatched ds
  dispatched_handled : dispatched.Sublist handled
  none_skipped : ∀ j ∈ dispatched, ∀ i p job, ps[i]? = some p → p.message = .request job →
    Precedes ps i j → i ∈ dispatched
  times : ps.Pairwise (·.time ≤ ·.time)

namespace Delivered
variable {ps : List Posting} {gs : List Handling} {ds : List Handover} {hs is : List Nat}

theorem nodup (h : Delivered ps gs ds hs is) : is.Nodup :=
  (h.in_order.sublist h.dispatched_handled).imp fun {_ _} hij he => by
    subst he
    exact hij.asymm hij

theorem fifo (h : Delivered ps gs ds hs is) :
    is.Pairwise fun i j => ∀ p q, ps[i]? = some p → ps[j]? = some q → p.delay = q.delay →
      p.OnClock → i < j := by
  refine (h.in_order.sublist h.dispatched_handled).imp fun {i j} hij p q hp hq hd hon => ?_
  by_contra hge
  rcases Nat.lt_or_eq_of_le (Nat.le_of_not_lt hge) with hlt | rfl
  · exact hij.asymm (precedes_of_delay_eq h.times hq hp hd.symm hon hlt)
  · exact hij.asymm hij

end Delivered

namespace Course
variable {c : Course} {k : Nat} {o : Nat → Nat}

/-- The places of the postings that these messages go back to. -/
def places (o : Nat → Nat) (gs : List Handling) : List Nat := gs.map fun g => o g.entry.number

theorem entry_mem {g : Handling} (hg : g ∈ c.handlings) : g.entry ∈ c.entries :=
  List.mem_append_left _ (List.mem_map_of_mem hg)

theorem mem_requests {g : Handling} :
    g ∈ c.requests ↔ g ∈ c.handlings ∧ ∃ job, g.entry.item = .request job := by
  rw [requests, List.mem_filter]
  cases g.entry.item <;> simp [Message.job?]

theorem isIdle_of_request {m : Message} {job : Job} (h : m = .request job) : m.isIdle = false :=
  h ▸ rfl

/-! ## What was handled -/

theorem Kept.precedes (h : c.Kept k o) {e f : TimerQueue.Entry Message} (he : e ∈ c.entries)
    (hf : f ∈ c.entries) (hie : e.item.isIdle = false) (hif : f.item.isIdle = false)
    (hb : e.before f = true) : Precedes c.postings (o e.number) (o f.number) := by
  obtain ⟨_, p, hp, _, hpd⟩ := h.source e he hie
  obtain ⟨_, q, hq, _, hqd⟩ := h.source f hf hif
  refine ⟨p, q, hp, hq, ?_⟩
  rw [hpd, hqd]
  rcases TimerQueue.before_iff.mp hb with hlt | ⟨heq, hn⟩
  · exact .inl hlt
  · exact .inr ⟨heq, h.origin_lt e he f hf hie hif hn⟩

theorem Kept.handlings_ordered (h : c.Kept k o) :
    c.handlings.Pairwise fun g g' => g.entry.before g'.entry = true :=
  List.pairwise_map.mp (List.pairwise_append.mp h.ordered).1

theorem Kept.handled_posted (h : c.Kept k o) {gs : List Handling} (hs : ∀ g ∈ gs, g ∈ c.handlings)
    (hidle : ∀ g ∈ gs, g.entry.item.isIdle = false) :
    List.Forall₂ (fun i g => ∃ p, c.postings[i]? = some p ∧ g.entry.item = p.message ∧
      g.entry.due = p.due ∧ p.due ≤ g.time) (places o gs) gs := by
  refine List.forall₂_map_left_iff.mpr (List.forall₂_same.mpr fun g hg => ?_)
  obtain ⟨_, p, hp, hitem, hdue⟩ := h.source g.entry (entry_mem (hs g hg)) (hidle g hg)
  exact ⟨p, hp, hitem.symm, hdue.symm, hdue ▸ (h.past g (hs g hg)).1⟩

theorem Kept.handled_in_order (h : c.Kept k o) {gs : List Handling} (hs : gs.Sublist c.handlings)
    (hidle : ∀ g ∈ gs, g.entry.item.isIdle = false) :
    (places o gs).Pairwise (Precedes c.postings) := by
  refine List.pairwise_map.mpr ((h.handlings_ordered.sublist hs).imp_of_mem ?_)
  intro g g' hg hg' hb
  exact h.precedes (entry_mem (hs.subset hg)) (entry_mem (hs.subset hg')) (hidle g hg)
    (hidle g' hg') hb

/-- What precedes a message that was handled was handled itself; it neither waits in the queue nor
as a letter. -/
theorem Kept.handled_of_precedes (h : c.Kept k o) {g : Handling} (hg : g ∈ c.handlings)
    (hidle : g.entry.item.isIdle = false) {i : Nat} {p : Posting} (hp : c.postings[i]? = some p)
    (hquit : p.message.isQuit = false) (hi : Precedes c.postings i (o g.entry.number)) :
    ∃ g' ∈ c.handlings, g'.entry.item = p.message ∧ o g'.entry.number = i := by
  have hik : i < k := by
    by_contra hki
    have hdrop : p ∈ c.postings.drop k := by
      refine List.mem_of_getElem? (i := i - k) ?_
      rw [List.getElem?_drop, Nat.add_sub_cancel' (Nat.le_of_not_lt hki)]
      exact hp
    have hahead := h.ahead g hg p hdrop
    obtain ⟨hok, q, hq, _, hqd⟩ := h.source g.entry (entry_mem hg) hidle
    obtain ⟨p', q', hp', hq', hpq⟩ := hi
    cases hp.symm.trans hp'
    cases hq.symm.trans hq'
    grind
  obtain ⟨e, he, hie, rfl⟩ := h.complete i hik p hp hquit
  rcases List.mem_append.mp he with hmem | hmem
  · obtain ⟨g', hg', rfl⟩ := List.mem_map.mp hmem
    obtain ⟨_, p', hp', hitem, _⟩ := h.source g'.entry he hie
    cases hp.symm.trans hp'
    exact ⟨g', hg', hitem.symm, rfl⟩
  · have hb := (List.pairwise_append.mp h.ordered).2.2 g.entry (List.mem_map_of_mem hg) e hmem
    exact absurd (h.precedes (entry_mem hg) he hidle hie hb) hi.asymm

theorem Kept.handled_of_due (h : c.Kept k o) (hl : c.mailbox.letters = [])
    (hdue : ∀ e ∈ c.queue.entries, c.now < e.due) {i : Nat} {p : Posting}
    (hp : c.postings[i]? = some p) (hquit : p.message.isQuit = false) (hle : p.due ≤ c.now) :
    ∃ g ∈ c.handlings, g.entry.item = p.message ∧ o g.entry.number = i := by
  have hik : i < k := by
    have hdrop : c.postings.drop k = [] := List.map_eq_nil_iff.mp (h.letters.symm.trans hl)
    exact Nat.lt_of_lt_of_le (List.getElem?_eq_some_iff.mp hp).1 (List.drop_eq_nil_iff.mp hdrop)
  obtain ⟨e, he, hie, rfl⟩ := h.complete i hik p hp hquit
  obtain ⟨_, p', hp', hitem, hpd⟩ := h.source e he hie
  cases hp.symm.trans hp'
  rcases List.mem_append.mp he with hmem | hmem
  · obtain ⟨g, hg, rfl⟩ := List.mem_map.mp hmem
    exact ⟨g, hg, hitem.symm, rfl⟩
  · exact absurd (hdue e hmem) (Nat.not_lt.mpr (hpd ▸ hle))

/-! ## What was dispatched -/

section Dispatched
variable {done left : List Handling}

theorem mem_of_done (hreq : c.requests = done ++ left) {g : Handling} (hg : g ∈ done) :
    g ∈ c.handlings ∧ g.entry.item.isIdle = false := by
  obtain ⟨hmem, job, hjob⟩ := mem_requests.mp (hreq ▸ List.mem_append_left left hg)
  exact ⟨hmem, isIdle_of_request hjob⟩

variable (h : c.Kept k o) (hreq : c.requests = done ++ left)
include h hreq

theorem Kept.dispatched_posted (hdone : List.Forall₂ HandedOver done c.handovers) :
    List.Forall₂ (fun i d => ∃ p job, c.postings[i]? = some p ∧ p.message = .request job ∧
      d.job = job.id ∧ p.due ≤ d.time) (places o done) c.handovers := by
  have hmem : ∀ g ∈ done, g ∈ c.handlings := fun g hg => (mem_of_done hreq hg).1
  refine List.forall₂_map_left_iff.mpr (((List.forall₂_and_left _ _).mpr ⟨hmem, hdone⟩).imp ?_)
  rintro g d ⟨hg, htime, job, hjob, hd⟩
  obtain ⟨_, p, hp, hitem, hdue⟩ := h.source g.entry (entry_mem hg) (isIdle_of_request hjob)
  refine ⟨p, job, hp, hitem.trans hjob, hd, ?_⟩
  rw [hdue]
  exact Nat.le_trans (h.past g hg).1 htime

theorem Kept.none_skipped :
    ∀ j ∈ places o done, ∀ i p job, c.postings[i]? = some p → p.message = .request job →
      Precedes c.postings i j → i ∈ places o done := by
  intro j hj i p job hp hjob hprec
  obtain ⟨g, hg, rfl⟩ := List.mem_map.mp hj
  obtain ⟨hmem, hidle⟩ := mem_of_done hreq hg
  have hquit : p.message.isQuit = false := hjob ▸ rfl
  obtain ⟨g', hg', hitem, rfl⟩ := h.handled_of_precedes hmem hidle hp hquit hprec
  have hin : g' ∈ done ++ left := hreq ▸ mem_requests.mpr ⟨hg', job, hitem.trans hjob⟩
  rcases List.mem_append.mp hin with hdone | hleft
  · exact List.mem_map_of_mem hdone
  · -- The request at hand stands behind all that were dispatched.
    have hord : (done ++ left).Pairwise fun g g' => g.entry.before g'.entry = true :=
      hreq ▸ h.handlings_ordered.sublist List.filter_sublist
    have hb := (List.pairwise_append.mp hord).2.2 g hg g' hleft
    have hidle' := isIdle_of_request (hitem.trans hjob)
    exact absurd (h.precedes (entry_mem hmem) (entry_mem hg') hidle hidle' hb) hprec.asymm

end Dispatched

/-- What the invariant comes to. -/
theorem Kept.delivered_of (h : c.Kept k o) {done left : List Handling}
    (hreq : c.requests = done ++ left) (hdone : List.Forall₂ HandedOver done c.handovers) :
    Delivered c.postings c.handlings c.handovers
      (places o (c.handlings.filter (!·.entry.item.isIdle))) (places o done) := by
  have hposted : ∀ g ∈ c.handlings.filter (!·.entry.item.isIdle), g.entry.item.isIdle = false :=
    fun g hg => by simpa using (List.mem_filter.mp hg).2
  have hsub : c.requests.Sublist (c.handlings.filter (!·.entry.item.isIdle)) := by
    refine List.monotone_filter_right _ fun g hg => ?_
    cases hitem : g.entry.item <;> simp_all [Message.job?, Message.isIdle]
  exact
    { handled_posted := h.handled_posted (fun _ => List.mem_of_mem_filter) hposted
      sorted := h.handlings_ordered.imp TimerQueue.due_le_of_before
      in_order := h.handled_in_order List.filter_sublist hposted
      dispatched_posted := h.dispatched_posted hreq hdone
      dispatched_handled := by
        have hdone : done.Sublist c.requests := hreq ▸ List.sublist_append_left _ _
        exact (hdone.trans hsub).map _
      none_skipped := h.none_skipped hreq
      times := h.times }

/-- And a loop with nothing at hand and nothing to do has dispatched every job whose time has
come. -/
theorem Kept.delivered (h : c.Kept k o) :
    ∃ handled dispatched,
      Delivered c.postings c.handlings c.handovers handled dispatched ∧
      (c.picked = none → c.mailbox.letters = [] → (∀ e ∈ c.queue.entries, c.now < e.due) →
        ∀ i p job, c.postings[i]? = some p → p.message = .request job → p.due ≤ c.now →
          i ∈ dispatched) := by
  obtain ⟨done, left, hreq, hleft, hdone⟩ := h.handed
  refine ⟨_, _, h.delivered_of hreq hdone, ?_⟩
  intro hp hl hdue i p job hip hjob hle
  rw [hp] at hleft
  obtain rfl := List.map_eq_nil_iff.mp hleft
  rw [List.append_nil] at hreq
  have hquit : p.message.isQuit = false := hjob ▸ rfl
  obtain ⟨g, hg, hitem, rfl⟩ := h.handled_of_due hl hdue hip hquit hle
  exact List.mem_map_of_mem (hreq ▸ mem_requests.mpr ⟨hg, job, hitem.trans hjob⟩)

end Course

end Outbox
