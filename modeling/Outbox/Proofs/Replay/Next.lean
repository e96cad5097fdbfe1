import Outbox.Proofs.Delivery.Life
import Outbox.Proofs.Replay.Order

/-! # The next of the jobs taken over

Of all that is queued only the idle timer might come before a job that the loop took over, and it
is set only by a loop that has come to rest, when no such job is left. So a loop that goes round
takes up one of these jobs after the other. Main statement: `Kept.next`. -/
namespace Outbox
set_option autoImplicit false

namespace TimerQueue
variable {α : Type} {q : TimerQueue α} {now : Instant}

theorem popDue_of_due {e f : Entry α} {r : List (Entry α)} (hq : q.entries = f :: r)
    (ho : Ordered q.entries) (he : e ∈ q.entries) (hdue : e.due ≤ now) :
    q.popDue now = (some f, { q with entries := r }) := by
  rw [hq] at ho he
  have hf : f.due ≤ now := by
    rcases List.mem_cons.mp he with rfl | he
    · exact hdue
    · exact Nat.le_trans (due_le_of_before ((List.pairwise_cons.mp ho).1 e he)) hdue
  unfold popDue
  rw [hq]
  exact if_pos hf

end TimerQueue

namespace Course
variable {c d : Course} {k : Nat} {o : Nat → Nat} {jobs : List Job} {t : Instant}

/-! ## The clock -/

theorem hasRoom_move (h : c.now.HasRoom) (hm : c.Move d) : d.now.HasRoom := by
  cases hm with
  | wait t _ hroom => exact hroom
  | post m delay =>
    unfold post
    split <;> exact h
  | take letter rest =>
    unfold takeIn
    dsimp only
    split <;> exact h
  | _ => exact h

theorem hasRoom_moves (h : c.now.HasRoom) (hm : c.Moves d) : d.now.HasRoom := by
  induction hm with
  | refl => exact h
  | tail _ hm ih => exact hasRoom_move ih hm

/-! ## Nothing but the jobs -/

/-- The jobs were posted at `t`, before all else, and if the idle timer is set then all of them
were dispatched. -/
structure Led (c : Course) (jobs : List Job) (t : Instant) : Prop where
  postings : ∃ rest, c.postings = jobs.map (Posting.pending t) ++ rest
  calm : ∀ e ∈ c.queue.entries, e.item.isIdle = true → jobs.length ≤ c.handovers.length

theorem Led.nil (c : Course) (t : Instant) : c.Led [] t :=
  ⟨⟨c.postings, rfl⟩, fun _ _ _ => Nat.zero_le _⟩

theorem Led.posted (h : c.Led jobs t) {i : Nat} (hi : i < jobs.length) :
    c.postings[i]? = some (.pending t jobs[i]) := by
  obtain ⟨rest, hps⟩ := h.postings
  rw [hps]
  exact getElem?_replayed hi

/-- A job that was taken over has no time to wait for. -/
theorem Led.due_le (h : c.Led jobs t) (hk : c.Kept k o) (hroom : c.now.HasRoom) {i : Nat}
    (hi : i < jobs.length) : (Posting.pending t jobs[i]).due ≤ c.now := by
  have ht : t ≤ c.now := hk.posted _ (List.mem_of_getElem? (h.posted hi))
  have hlimit : c.now < Instant.limit := Nat.lt_of_le_of_lt (Nat.le_add_right _ _) hroom
  have hdue : (Posting.pending t jobs[i]).due = t + 0 :=
    Posting.due_eq (Nat.lt_of_le_of_lt ht hlimit)
  exact hdue ▸ ht

/-- A loop with nothing at hand has dispatched what it handled, and if jobs are left these are the
first of them. -/
theorem Led.dispatched (h : c.Led jobs t) (hk : c.Kept k o) (hp : c.picked = none)
    (hlt : c.handovers.length < jobs.length) :
    ∃ done, c.requests = done ∧ places o done = List.range c.handovers.length := by
  obtain ⟨rest, hps⟩ := h.postings
  obtain ⟨done, left, hreq, hleft, hdone⟩ := hk.handed
  rw [hp] at hleft
  obtain rfl := List.map_eq_nil_iff.mp hleft
  have hd := hps ▸ hk.delivered_of hreq hdone
  obtain ⟨later, he, _⟩ := hd.replayed_first
  rw [Nat.min_eq_left (Nat.le_of_lt hlt)] at he
  have hlen := hd.dispatched_posted.length_eq
  rw [he, List.length_append, List.length_range] at hlen
  have hnil : later = [] := List.length_eq_zero_iff.mp (by omega)
  rw [hnil, List.append_nil] at he
  exact ⟨done, hreq.trans (List.append_nil done), he⟩

/-- The next of the jobs is queued. -/
theorem Led.queued (h : c.Led jobs t) (hk : c.Kept k o) (hp : c.picked = none)
    (hl : c.mailbox.letters = []) (hlt : c.handovers.length < jobs.length) :
    ∃ e ∈ c.queue.entries, e.item = .request jobs[c.handovers.length] ∧
      e.due = (Posting.pending t jobs[c.handovers.length]).due ∧
      o e.number = c.handovers.length := by
  have hget := h.posted hlt
  have hik : c.handovers.length < k := by
    have hdrop : c.postings.drop k = [] := List.map_eq_nil_iff.mp (hk.letters.symm.trans hl)
    exact Nat.lt_of_lt_of_le (List.getElem?_eq_some_iff.mp hget).1 (List.drop_eq_nil_iff.mp hdrop)
  obtain ⟨e, he, hidle, horigin⟩ := hk.complete _ hik _ hget rfl
  obtain ⟨_, p, hp', hitem, hdue⟩ := hk.source e he hidle
  rw [horigin] at hp'
  cases hget.symm.trans hp'
  rcases List.mem_append.mp he with hmem | hmem
  · -- What was handled is among the first, and this one is not.
    obtain ⟨g, hg, rfl⟩ := List.mem_map.mp hmem
    obtain ⟨done, hreq, hplaces⟩ := h.dispatched hk hp hlt
    have hin : o g.entry.number ∈ places o done :=
      List.mem_map_of_mem (hreq ▸ mem_requests.mpr ⟨hg, _, hitem.symm⟩)
    rw [hplaces, horigin] at hin
    exact absurd (List.mem_range.mp hin) (Nat.lt_irrefl _)
  · exact ⟨e, hmem, hitem.symm, hdue.symm, horigin⟩

/-- Neither the idle timer nor another message stands before it. -/
theorem Led.not_before (h : c.Led jobs t) (hk : c.Kept k o) (hp : c.picked = none)
    (hlt : c.handovers.length < jobs.length) {e f : TimerQueue.Entry Message}
    (he : e ∈ c.queue.entries) (hitem : e.item = .request jobs[c.handovers.length])
    (horigin : o e.number = c.handovers.length) (hf : f ∈ c.queue.entries) :
    ¬ f.before e = true := by
  intro hb
  have hf' : f ∈ c.entries := List.mem_append_right _ hf
  cases hidle : f.item.isIdle with
  | true => exact Nat.not_le_of_lt hlt (h.calm f hf hidle)
  | false =>
    have hprec := hk.precedes hf' (List.mem_append_right _ he) hidle (isIdle_of_request hitem) hb
    rw [horigin] at hprec
    rcases Nat.lt_trichotomy (o f.number) c.handovers.length with hi | hi | hi
    · -- The jobs before it were dispatched and have left the queue.
      obtain ⟨done, hreq, hplaces⟩ := h.dispatched hk hp hlt
      obtain ⟨g, hg, hog⟩ := List.mem_map.mp (hplaces ▸ List.mem_range.mpr hi)
      obtain ⟨hgh, job, hjob⟩ := mem_requests.mp (hreq ▸ hg)
      have hgb : g.entry.before f = true :=
        (List.pairwise_append.mp hk.ordered).2.2 g.entry (List.mem_map_of_mem hgh) f hf
      have hgf := hk.precedes (entry_mem hgh) hf' (isIdle_of_request hjob) hidle hgb
      rw [hog] at hgf
      exact hgf.asymm hgf
    · rw [hi] at hprec
      exact hprec.asymm hprec
    · obtain ⟨rest, hps⟩ := h.postings
      obtain ⟨p, _, hp', _⟩ := id hprec
      rw [hps] at hprec hp'
      exact hprec.asymm (precedes_of_replayed (hps ▸ hk.times) hlt hi hp')

/-- So it is the first that leaves the queue. -/
theorem Kept.next (hk : c.Kept k o) (h : c.Led jobs t) (hroom : c.now.HasRoom)
    (hp : c.picked = none) (hl : c.mailbox.letters = [])
    (hlt : c.handovers.length < jobs.length) :
    ∃ e rest, c.queue.popDue c.now = (some e, rest) ∧
      e.item = .request jobs[c.handovers.length] := by
  obtain ⟨e, he, hitem, hdue, horigin⟩ := h.queued hk hp hl hlt
  have hqueue : TimerQueue.Ordered c.queue.entries := (List.pairwise_append.mp hk.ordered).2.1
  obtain ⟨f, r, hq⟩ := List.exists_cons_of_ne_nil (List.ne_nil_of_mem he)
  have hf : f ∈ c.queue.entries := hq ▸ List.mem_cons_self
  have hfirst : e = f := by
    rcases List.mem_cons.mp (hq ▸ he) with heq | hmem
    · exact heq
    · have hb := (List.pairwise_cons.mp (hq ▸ hqueue)).1 e hmem
      exact absurd hb (h.not_before hk hp hlt he hitem horigin hf)
  exact ⟨f, _, TimerQueue.popDue_of_due hq hqueue he (hdue ▸ h.due_le hk hroom hlt),
    hfirst ▸ hitem⟩

/-! ## From one move to the next -/

theorem Led.of_queue (h : c.Led jobs t) (hps : d.postings = c.postings)
    (hhs : d.handovers = c.handovers) (hq : d.queue.entries ⊆ c.queue.entries) : d.Led jobs t :=
  ⟨hps ▸ h.postings, fun e he hidle => hhs ▸ h.calm e (hq he) hidle⟩

theorem Led.move (h : c.Led jobs t) (hp : c.Phase) (hroom : c.now.HasRoom) (hm : c.Move d) :
    d.Led jobs t := by
  cases hm with
  | wait | interrupt | retire | climb | giveUp | install => exact ⟨h.postings, h.calm⟩
  | post m delay =>
    unfold post
    split
    · exact h
    · obtain ⟨rest, hps⟩ := h.postings
      refine ⟨⟨rest ++ [⟨c.now, delay, m⟩], ?_⟩, h.calm⟩
      rw [hps, List.append_assoc]
  | renew | close => exact h.of_queue rfl rfl (List.nil_subset _)
  | take letter rest hs hl =>
    obtain ⟨k, o, hk⟩ := hp.kept hs
    obtain ⟨p, hpost, _, hletter, _⟩ := hk.first_letter hl
    have hm : letter.message.isIdle = false := hletter ▸ hk.no_idle p (List.mem_of_getElem? hpost)
    unfold takeIn
    dsimp only
    split
    · exact ⟨h.postings, h.calm⟩
    · refine ⟨h.postings, fun e he hidle => ?_⟩
      rcases List.mem_cons.mp ((TimerQueue.place_perm hk.fresh).mem_iff.mp he) with rfl | he
      · cases hm.symm.trans hidle
      · exact h.calm e he hidle
  | purge => exact h.of_queue rfl rfl List.filter_sublist.subset
  | setIdle due hs hd hpicked hl he =>
    obtain ⟨k, o, hk⟩ := hp.kept hs
    refine ⟨h.postings, fun _ _ _ => ?_⟩
    -- The loop finds nothing due, so none of the jobs is left.
    by_contra hlt
    obtain ⟨e, rest, hdue, _⟩ := hk.next h hroom hpicked hl (Nat.lt_of_not_le hlt)
    cases (congrArg Prod.fst hdue).symm.trans he
  | handle e rest _ _ _ he =>
    refine h.of_queue rfl rfl ?_
    rw [(TimerQueue.popDue_eq_some he).1]
    exact List.subset_cons_self _ _
  | hand job =>
    refine ⟨h.postings, fun e he hidle => Nat.le_trans (h.calm e he hidle) ?_⟩
    exact (List.sublist_append_left c.handovers [⟨c.now, job.id⟩]).length_le

theorem Led.moves (h : c.Led jobs t) (hp : c.Phase) (hroom : c.now.HasRoom) (hm : c.Moves d) :
    d.Led jobs t := by
  induction hm with
  | refl => exact h
  | tail hms hm ih => exact ih.move (hp.moves hms) (hasRoom_moves hroom hms) hm

/-- Only a running loop has anything in its queue. -/
theorem unfilled_move (h : c.stage ≠ .running → c.queue.entries = []) (hm : c.Move d) :
    d.stage ≠ .running → d.queue.entries = [] := by
  cases hm with
  | wait | interrupt | retire | hand => exact h
  | post m delay =>
    unfold post
    split <;> exact h
  | renew | close => exact fun _ => rfl
  | climb s hfrom =>
    refine fun _ => h fun hs => ?_
    rw [hs] at hfrom
    exact absurd hfrom (by decide)
  | giveUp hs => exact fun _ => h (hs ▸ nofun)
  | install => exact fun hs => absurd rfl hs
  | take letter rest hs =>
    unfold takeIn
    dsimp only
    split <;> exact fun hne => absurd hs hne
  | purge =>
    intro hs
    change c.queue.entries.filter _ = []
    rw [h hs]
    rfl
  | setIdle _ hs | handle _ _ hs => exact fun hne => absurd hs hne

theorem unfilled_moves (h : c.stage ≠ .running → c.queue.entries = []) (hm : c.Moves d) :
    d.stage ≠ .running → d.queue.entries = [] := by
  induction hm with
  | refl => exact h
  | tail _ hm ih => exact unfilled_move ih hm

end Course

end Outbox
