import Mathlib.Data.List.Forall2
import Mathlib.Logic.Function.Basic
import Outbox.Proofs.Delivery.Steps
import Outbox.Proofs.TimerQueue.Order

/-! # The order of messages

While the loop runs, what was handled and what is queued form one list in the order of a timer
queue, and the numbers in it grow with the places of the postings. `Course.Kept` is that invariant:
a number of postings is taken in, the rest waits as letters, and `origin` leads from a number in the
queue back to its posting. -/
namespace Outbox
set_option autoImplicit false

namespace Course

/-- What was handled, and behind it what is queued. -/
def entries (c : Course) : List (TimerQueue.Entry Message) :=
  c.handlings.map Handling.entry ++ c.queue.entries

def requests (c : Course) : List Handling := c.handlings.filter (·.entry.item.job?.isSome)

end Course

/-- The job of a handled request was dispatched, and not before it was handled. -/
def HandedOver (g : Handling) (d : Handover) : Prop :=
  g.time ≤ d.time ∧ ∃ job, g.entry.item = .request job ∧ d.job = job.id

namespace Course

structure Kept (c : Course) (taken : Nat) (origin : Nat → Nat) : Prop where
  ordered : TimerQueue.Ordered c.entries
  number_le : ∀ e ∈ c.entries, e.number ≤ c.queue.last
  source : ∀ e ∈ c.entries, e.item.isIdle = false → origin e.number < taken ∧
    ∃ p, c.postings[origin e.number]? = some p ∧ p.message = e.item ∧ p.due = e.due
  origin_lt : ∀ e ∈ c.entries, ∀ f ∈ c.entries, e.item.isIdle = false → f.item.isIdle = false →
    e.number < f.number → origin e.number < origin f.number
  complete : ∀ i < taken, ∀ p, c.postings[i]? = some p → p.message.isQuit = false →
    ∃ e ∈ c.entries, e.item.isIdle = false ∧ origin e.number = i
  letters : c.mailbox.letters = (c.postings.drop taken).map Posting.letter
  taken_le : taken ≤ c.postings.length
  no_idle : ∀ p ∈ c.postings, p.message.isIdle = false
  no_quit : ∀ e ∈ c.entries, e.item.isQuit = false
  past : ∀ g ∈ c.handlings, g.entry.due ≤ g.time ∧ g.time ≤ c.now
  posted : ∀ p ∈ c.postings, p.time ≤ c.now
  times : c.postings.Pairwise (·.time ≤ ·.time)
  /-- What waits as a letter is due no earlier than what was handled. -/
  ahead : ∀ g ∈ c.handlings, ∀ p ∈ c.postings.drop taken, g.entry.due ≤ p.due
  /-- All handled requests were dispatched, in their order, but for one that may be at hand. -/
  handed : ∃ done rest, c.requests = done ++ rest ∧
    rest.map (·.entry.item) = c.picked.toList.map .request ∧
    List.Forall₂ HandedOver done c.handovers

variable {c : Course} {k : Nat} {o : Nat → Nat}

theorem Kept.wait (h : c.Kept k o) {t : Instant} (ht : c.now ≤ t) :
    Kept { c with now := t } k o :=
  { h with
    past := fun g hg => ⟨(h.past g hg).1, Nat.le_trans (h.past g hg).2 ht⟩
    posted := fun p hp => Nat.le_trans (h.posted p hp) ht }

/-! ## Posting -/

theorem le_due (now : Instant) (d : Duration) : now ≤ Instant.after now d :=
  Nat.le_trans (Nat.le_add_right _ _) (Instant.le_after now d)

theorem Kept.post (h : c.Kept k o) {m : Message} (d : Duration) (hm : m.isIdle = false) :
    (c.post m d).Kept k o := by
  unfold Course.post
  split
  · exact h
  let new : Posting := ⟨c.now, d, m⟩
  have hget : ∀ i < k, (c.postings ++ [new])[i]? = c.postings[i]? := fun i hi =>
    List.getElem?_append_left (Nat.lt_of_lt_of_le hi h.taken_le)
  have hdrop : (c.postings ++ [new]).drop k = c.postings.drop k ++ [new] :=
    List.drop_append_of_le_length h.taken_le
  have hmem : ∀ {P : Posting → Prop} {ps : List Posting}, (∀ p ∈ ps, P p) → P new →
      ∀ p ∈ ps ++ [new], P p := by
    intro P ps hps hnew p hp
    rcases List.mem_append.mp hp with hp | hp
    · exact hps p hp
    · exact List.mem_singleton.mp hp ▸ hnew
  exact { h with
    source := fun e he hidle => by
      obtain ⟨hlt, p, hp⟩ := h.source e he hidle
      refine ⟨hlt, p, ?_⟩
      change (c.postings ++ [new])[_]? = _ ∧ _
      rw [hget _ hlt]
      exact hp
    complete := fun i hi p hp => by
      change (c.postings ++ [new])[i]? = _ at hp
      rw [hget i hi] at hp
      exact h.complete i hi p hp
    letters := by
      change (c.mailbox.post c.now m d).2.letters = ((c.postings ++ [new]).drop k).map _
      rw [hdrop, List.map_append, ← h.letters, Mailbox.post, if_neg (by assumption)]
      rfl
    taken_le := by
      change k ≤ (c.postings ++ [new]).length
      rw [List.length_append]
      exact Nat.le_add_right_of_le h.taken_le
    no_idle := hmem h.no_idle hm
    posted := hmem h.posted (Nat.le_refl _)
    times := by
      refine List.pairwise_append.mpr ⟨h.times, List.pairwise_singleton _ _, ?_⟩
      intro p hp q hq
      rw [List.mem_singleton.mp hq]
      exact h.posted p hp
    ahead := fun g hg => by
      change ∀ p ∈ (c.postings ++ [new]).drop k, _
      rw [hdrop]
      refine hmem (h.ahead g hg) ?_
      have hpast := h.past g hg
      exact Nat.le_trans hpast.1 (Nat.le_trans hpast.2 (le_due c.now d)) }

/-! ## Into the queue -/

section Insert
variable (h : c.Kept k o) (due : Instant) (m : Message)
include h

theorem Kept.fresh : ∀ f ∈ c.queue.entries, f.number < c.queue.last + 1 := fun f hf =>
  Nat.lt_succ_of_le (h.number_le f (List.mem_append_right _ hf))

theorem Kept.mem_insert (e : TimerQueue.Entry Message) :
    e ∈ ({ c with queue := c.queue.insert due m } : Course).entries ↔
      e = ⟨due, c.queue.last + 1, m⟩ ∨ e ∈ c.entries := by
  have hplace := (TimerQueue.place_perm (e := ⟨due, c.queue.last + 1, m⟩) h.fresh).mem_iff (a := e)
  change e ∈ _ ++ TimerQueue.place _ _ ↔ _ ∨ e ∈ _ ++ _
  rw [List.mem_append, List.mem_append, hplace, List.mem_cons, or_left_comm]

theorem Kept.ordered_insert (hdue : ∀ g ∈ c.handlings, g.entry.due ≤ due) :
    TimerQueue.Ordered ({ c with queue := c.queue.insert due m } : Course).entries := by
  obtain ⟨hleft, hright, hcross⟩ := List.pairwise_append.mp h.ordered
  refine List.pairwise_append.mpr ⟨hleft, TimerQueue.place_ordered hright h.fresh, ?_⟩
  intro e he f hf
  rcases List.mem_cons.mp ((TimerQueue.place_perm h.fresh).mem_iff.mp hf) with rfl | hf
  · obtain ⟨g, hg, rfl⟩ := List.mem_map.mp he
    exact TimerQueue.before_of_due_le (hdue g hg)
      (Nat.lt_succ_of_le (h.number_le _ (List.mem_append_left _ he)))
  · exact hcross e he f hf

theorem Kept.number_le_insert :
    ∀ e ∈ ({ c with queue := c.queue.insert due m } : Course).entries,
      e.number ≤ c.queue.last + 1 := by
  intro e he
  rcases (h.mem_insert due m e).mp he with rfl | he
  · exact Nat.le_refl _
  · exact Nat.le_succ_of_le (h.number_le e he)

end Insert

/-- The idle timer is set for a time that has not come, so it stands behind all that was handled;
it has no posting. -/
theorem Kept.setIdle (h : c.Kept k o) {due : Instant} (hdue : c.now ≤ due) :
    Kept { c with queue := c.queue.insert due .idle } k o := by
  have hold : ∀ e ∈ ({ c with queue := c.queue.insert due .idle } : Course).entries,
      e.item.isIdle = false → e ∈ c.entries := by
    intro e he hidle
    rcases (h.mem_insert due .idle e).mp he with rfl | he
    · cases hidle
    · exact he
  exact { h with
    ordered := h.ordered_insert due .idle fun g hg =>
      Nat.le_trans (h.past g hg).1 (Nat.le_trans (h.past g hg).2 hdue)
    number_le := h.number_le_insert due .idle
    source := fun e he hidle => h.source e (hold e he hidle) hidle
    origin_lt := fun e he f hf hie hif => h.origin_lt e (hold e he hie) f (hold f hf hif) hie hif
    complete := fun i hi p hp hq => by
      obtain ⟨e, he, horigin⟩ := h.complete i hi p hp hq
      exact ⟨e, (h.mem_insert due .idle e).mpr (.inr he), horigin⟩
    no_quit := fun e he => by
      rcases (h.mem_insert due .idle e).mp he with rfl | he
      · rfl
      · exact h.no_quit e he }

theorem Kept.first_letter (h : c.Kept k o) {letter : Letter Message} {rest : List (Letter Message)}
    (hl : c.mailbox.letters = letter :: rest) :
    ∃ p, c.postings[k]? = some p ∧ c.postings.drop k = p :: c.postings.drop (k + 1) ∧
      p.letter = letter ∧ rest = (c.postings.drop (k + 1)).map Posting.letter := by
  have hmap := h.letters.symm.trans hl
  have hlt : k < c.postings.length := by
    by_contra hge
    rw [List.drop_of_length_le (Nat.le_of_not_lt hge)] at hmap
    cases hmap
  rw [List.drop_eq_getElem_cons hlt, List.map_cons, List.cons.injEq] at hmap
  exact ⟨c.postings[k], List.getElem?_eq_getElem hlt, List.drop_eq_getElem_cons hlt, hmap.1,
    hmap.2.symm⟩

theorem Kept.take (h : c.Kept k o) {letter : Letter Message} {rest : List (Letter Message)}
    (hl : c.mailbox.letters = letter :: rest) : ∃ o', (c.takeIn letter rest).Kept (k + 1) o' := by
  obtain ⟨p, hp, hdrop, rfl, rfl⟩ := h.first_letter hl
  have hlt : k < c.postings.length := (List.getElem?_eq_some_iff.mp hp).1
  have hahead : ∀ g ∈ c.handlings, ∀ q ∈ c.postings.drop (k + 1), g.entry.due ≤ q.due := by
    intro g hg q hq
    refine h.ahead g hg q ?_
    rw [hdrop]
    exact List.mem_cons_of_mem _ hq
  unfold takeIn
  dsimp only
  split
  · -- A request to quit does not come into the queue.
    rename_i hquit
    refine ⟨o, { h with
      source := fun e he hidle => ?_
      complete := fun i hi q hq hnq => ?_
      letters := rfl
      taken_le := hlt
      ahead := hahead }⟩
    · obtain ⟨hk, hsource⟩ := h.source e he hidle
      exact ⟨Nat.lt_succ_of_lt hk, hsource⟩
    · rcases Nat.lt_succ_iff_lt_or_eq.mp hi with hi | rfl
      · exact h.complete i hi q hq hnq
      · cases hp.symm.trans hq
        cases hnq.symm.trans hquit
  · -- The new entry has the next number, which now leads to this posting.
    rename_i hquit
    have hidle : p.message.isIdle = false := h.no_idle p (List.mem_of_getElem? hp)
    have hmem := h.mem_insert p.due p.message
    have hnew : Function.update o (c.queue.last + 1) k (c.queue.last + 1) = k :=
      Function.update_self _ _ _
    have hold : ∀ e ∈ c.entries, Function.update o (c.queue.last + 1) k e.number = o e.number :=
      fun e he => Function.update_of_ne (Nat.ne_of_lt (Nat.lt_succ_of_le (h.number_le e he))) _ _
    refine ⟨Function.update o (c.queue.last + 1) k, { h with
      ordered := h.ordered_insert p.due p.message fun g hg => h.ahead g hg p ?_
      number_le := h.number_le_insert p.due p.message
      source := fun e he hie => ?_
      origin_lt := fun e he f hf hie hif hlt' => ?_
      complete := fun i hi q hq hnq => ?_
      letters := rfl
      taken_le := hlt
      no_quit := fun e he => ?_
      ahead := hahead }⟩
    · rw [hdrop]
      exact List.mem_cons_self
    · rcases (hmem e).mp he with rfl | he
      · rw [hnew]
        exact ⟨Nat.lt_succ_self k, p, hp, rfl, rfl⟩
      · rw [hold e he]
        obtain ⟨hk, hsource⟩ := h.source e he hie
        exact ⟨Nat.lt_succ_of_lt hk, hsource⟩
    · rcases (hmem e).mp he with rfl | he <;> rcases (hmem f).mp hf with rfl | hf
      · exact absurd hlt' (Nat.lt_irrefl _)
      · exact absurd (Nat.lt_of_lt_of_le hlt' (h.number_le f hf)) (Nat.not_lt.mpr (Nat.le_succ _))
      · rw [hnew, hold e he]
        exact (h.source e he hie).1
      · rw [hold e he, hold f hf]
        exact h.origin_lt e he f hf hie hif hlt'
    · rcases Nat.lt_succ_iff_lt_or_eq.mp hi with hi | rfl
      · obtain ⟨e, he, hie, horigin⟩ := h.complete i hi q hq hnq
        exact ⟨e, (hmem e).mpr (.inr he), hie, (hold e he).trans horigin⟩
      · exact ⟨_, (hmem _).mpr (.inl rfl), hidle, hnew⟩
    · rcases (hmem e).mp he with rfl | he
      · exact Bool.eq_false_iff.mpr hquit
      · exact h.no_quit e he

/-! ## Out of the queue -/

theorem entries_purge (c : Course) : c.purge.entries.Sublist c.entries :=
  List.Sublist.append_left List.filter_sublist _

theorem Kept.purge (h : c.Kept k o) : c.purge.Kept k o := by
  have hold : ∀ e ∈ c.purge.entries, e ∈ c.entries := fun e he => (entries_purge c).subset he
  exact { h with
    ordered := h.ordered.sublist (entries_purge c)
    number_le := fun e he => h.number_le e (hold e he)
    source := fun e he => h.source e (hold e he)
    origin_lt := fun e he f hf => h.origin_lt e (hold e he) f (hold f hf)
    complete := fun i hi p hp hq => by
      obtain ⟨e, he, hidle, horigin⟩ := h.complete i hi p hp hq
      refine ⟨e, ?_, hidle, horigin⟩
      rcases List.mem_append.mp he with he | he
      · exact List.mem_append_left _ he
      · refine List.mem_append_right _ (List.mem_filter.mpr ⟨he, ?_⟩)
        rw [hidle]
        rfl
    no_quit := fun e he => h.no_quit e (hold e he) }

theorem Kept.handle (h : c.Kept k o) {e : TimerQueue.Entry Message} {rest : TimerQueue Message}
    (hp : c.picked = none) (hl : c.mailbox.letters = [])
    (he : c.queue.popDue c.now = (some e, rest)) : (c.handle e rest).Kept k o := by
  obtain ⟨hqueue, hlast, hdue⟩ := TimerQueue.popDue_eq_some he
  let new : Handling := ⟨c.now, e⟩
  have hentries : (c.handle e rest).entries = c.entries := by
    change (c.handlings ++ [new]).map Handling.entry ++ rest.entries = _
    rw [List.map_append, List.append_assoc, entries, hqueue]
    rfl
  have hdrop : c.postings.drop k = [] := by
    have hmap := h.letters.symm.trans hl
    exact List.map_eq_nil_iff.mp hmap
  exact { h with
    ordered := hentries ▸ h.ordered
    number_le := fun f hf => by
      change f.number ≤ rest.last
      rw [hlast]
      exact h.number_le f (hentries ▸ hf)
    source := hentries ▸ h.source
    origin_lt := hentries ▸ h.origin_lt
    complete := hentries ▸ h.complete
    no_quit := hentries ▸ h.no_quit
    past := fun g hg => by
      rcases List.mem_append.mp hg with hg | hg
      · exact h.past g hg
      · obtain rfl := List.mem_singleton.mp hg
        exact ⟨hdue, Nat.le_refl _⟩
    ahead := fun g _ p hmem => by
      change p ∈ c.postings.drop k at hmem
      rw [hdrop] at hmem
      cases hmem
    handed := by
      obtain ⟨done, left, hreq, hleft, hdone⟩ := h.handed
      rw [hp] at hleft
      obtain rfl := List.map_eq_nil_iff.mp hleft
      have hreq' : (c.handle e rest).requests =
          done ++ [new].filter (·.entry.item.job?.isSome) := by
        change (c.handlings ++ [new]).filter _ = _
        rw [List.filter_append]
        exact congrArg (· ++ _) (hreq.trans (List.append_nil done))
      refine ⟨done, _, hreq', ?_, hdone⟩
      change _ = (e.item.job?.or c.picked).toList.map _
      rw [hp]
      obtain ⟨due, number, item⟩ := e
      cases item <;> rfl }

theorem Kept.hand (h : c.Kept k o) {job : Job} (hp : c.picked = some job) :
    (c.hand job).Kept k o :=
  { h with
    handed := by
      obtain ⟨done, left, hreq, hleft, hdone⟩ := h.handed
      rw [hp] at hleft
      obtain ⟨g, rfl, hg⟩ := List.map_eq_singleton_iff.mp hleft
      have hmem : g ∈ c.handlings := by
        have hin : g ∈ c.requests := hreq ▸ List.mem_append_right _ (List.mem_singleton_self g)
        exact List.mem_of_mem_filter hin
      refine ⟨done ++ [g], [], hreq.trans (List.append_nil _).symm, rfl, ?_⟩
      exact List.rel_append hdone (.cons ⟨(h.past g hmem).2, job, hg, rfl⟩ .nil) }

end Course

end Outbox
