import Outbox.TimerQueue

/-! # The order of a timer queue

Entries are ordered by their due times and those due at the same instant by their numbers. An entry
with a number above all others is placed so that the order is kept; in particular it stands behind
all that are due at its instant. -/
namespace Outbox.TimerQueue
set_option autoImplicit false

variable {α : Type} {e f g : Entry α} {l : List (Entry α)}

theorem before_iff :
    e.before f = true ↔ e.due < f.due ∨ e.due = f.due ∧ e.number < f.number := by
  simp [Entry.before]

theorem before_trans (hef : e.before f = true) (hfg : f.before g = true) : e.before g = true := by
  rw [before_iff] at hef hfg ⊢
  grind

theorem due_le_of_before (h : e.before f = true) : e.due ≤ f.due := by
  rw [before_iff] at h
  grind

/-- Of two entries the one with the greater number stands behind if it is due no earlier. -/
theorem before_of_due_le (hdue : e.due ≤ f.due) (hn : e.number < f.number) :
    e.before f = true := by
  rw [before_iff]
  grind

abbrev Ordered (l : List (Entry α)) : Prop := l.Pairwise fun e f => e.before f = true

theorem place_perm (hfresh : ∀ f ∈ l, f.number < e.number) : (place e l).Perm (e :: l) := by
  induction l with
  | nil => exact List.Perm.refl _
  | cons f r ih =>
    obtain ⟨hf, hr⟩ := List.forall_mem_cons.mp hfresh
    unfold place
    split
    · exact List.Perm.refl _
    · split
      · rename_i hsame
        simp only [Entry.sameKey, Bool.and_eq_true, beq_iff_eq] at hsame
        omega
      · exact ((ih hr).cons f).trans (List.Perm.swap e f r)

theorem place_ordered (h : Ordered l) (hfresh : ∀ f ∈ l, f.number < e.number) :
    Ordered (place e l) := by
  induction l with
  | nil => exact List.pairwise_singleton _ _
  | cons f r ih =>
    obtain ⟨hf, hr⟩ := List.forall_mem_cons.mp hfresh
    obtain ⟨hhead, htail⟩ := List.pairwise_cons.mp h
    unfold place
    split
    · rename_i hef
      refine List.pairwise_cons.mpr ⟨?_, h⟩
      intro g hg
      rcases List.mem_cons.mp hg with rfl | hg
      · exact hef
      · exact before_trans hef (hhead g hg)
    · rename_i hef
      split
      · rename_i hsame
        simp only [Entry.sameKey, Bool.and_eq_true, beq_iff_eq] at hsame
        omega
      · have hfe : f.before e = true := by
          rw [before_iff] at hef ⊢
          grind
        refine List.pairwise_cons.mpr ⟨?_, ih htail hr⟩
        intro g hg
        rcases List.mem_cons.mp ((place_perm hr).mem_iff.mp hg) with rfl | hg
        · exact hfe
        · exact hhead g hg

theorem popDue_eq_some {q q' : TimerQueue α} {now : Instant} (h : q.popDue now = (some e, q')) :
    q.entries = e :: q'.entries ∧ q'.last = q.last ∧ e.due ≤ now := by
  unfold popDue at h
  split at h
  · cases h
  · rename_i d r hr
    split at h
    · cases h
      exact ⟨hr, rfl, ‹_›⟩
    · cases h

/-! ## Sound queues -/

section Place
variable {β : Type} {p : Entry α → Option β}

theorem filterMap_place_of_none (hfresh : ∀ f ∈ l, f.number < e.number) (he : p e = none) :
    (place e l).filterMap p = l.filterMap p := by
  induction l with
  | nil => exact List.filterMap_cons_none he
  | cons f r ih =>
    obtain ⟨hf, hr⟩ := List.forall_mem_cons.mp hfresh
    unfold place
    split
    · exact List.filterMap_cons_none he
    · split
      · rename_i hsame
        simp only [Entry.sameKey, Bool.and_eq_true, beq_iff_eq] at hsame
        omega
      · rw [List.filterMap_cons, List.filterMap_cons, ih hr]

/-- What is chosen from a queue keeps the order in which it came, if it came in the order of its
due times. -/
theorem filterMap_place (ho : Ordered l) (hfresh : ∀ f ∈ l, f.number < e.number)
    (hlate : ∀ f ∈ l, (p f).isSome = true → f.due ≤ e.due) :
    (place e l).filterMap p = l.filterMap p ++ (p e).toList := by
  induction l with
  | nil =>
    change [e].filterMap p = _
    cases he : p e with
    | none => rw [List.filterMap_cons_none he]; rfl
    | some b => rw [List.filterMap_cons_some he]; rfl
  | cons f r ih =>
    obtain ⟨hf, hr⟩ := List.forall_mem_cons.mp hfresh
    obtain ⟨hlf, hlr⟩ := List.forall_mem_cons.mp hlate
    obtain ⟨hhead, htail⟩ := List.pairwise_cons.mp ho
    unfold place
    split
    · -- Nothing that is chosen stands behind the new entry.
      rename_i hef
      have hnone : (f :: r).filterMap p = [] := by
        refine List.filterMap_eq_nil_iff.mpr fun g hg => ?_
        have heg : e.before g = true := by
          rcases List.mem_cons.mp hg with rfl | hg
          · exact hef
          · exact before_trans hef (hhead g hg)
        cases hp : p g with
        | none => rfl
        | some b =>
          have hdue := hlate g hg (hp ▸ rfl)
          have hnumber := hfresh g hg
          rw [before_iff] at heg
          grind
      rw [List.filterMap_cons, hnone]
      cases p e <;> rfl
    · split
      · rename_i hsame
        simp only [Entry.sameKey, Bool.and_eq_true, beq_iff_eq] at hsame
        omega
      · rw [List.filterMap_cons, List.filterMap_cons, ih htail hr hlr]
        cases p f <;> rfl

end Place

/-- In order, and with no number above the last one given. -/
structure Sound (q : TimerQueue α) : Prop where
  ordered : Ordered q.entries
  number_le : ∀ e ∈ q.entries, e.number ≤ q.last

namespace Sound
variable {q q' : TimerQueue α} {now : Instant}

theorem fresh (h : q.Sound) : ∀ f ∈ q.entries, f.number < q.last + 1 := fun f hf =>
  Nat.lt_succ_of_le (h.number_le f hf)

theorem mem_insert (h : q.Sound) {due : Instant} {item : α} :
    e ∈ (q.insert due item).entries ↔ e = ⟨due, q.last + 1, item⟩ ∨ e ∈ q.entries :=
  (place_perm h.fresh).mem_iff.trans List.mem_cons

theorem insert (h : q.Sound) (due : Instant) (item : α) : (q.insert due item).Sound where
  ordered := place_ordered h.ordered h.fresh
  number_le e he := by
    rcases h.mem_insert.mp he with rfl | he
    · exact Nat.le_refl _
    · exact Nat.le_succ_of_le (h.number_le e he)

theorem removeAll (h : q.Sound) (p : α → Bool) : (q.removeAll p).2.Sound where
  ordered := h.ordered.sublist List.filter_sublist
  number_le e he := h.number_le e (List.mem_filter.mp he).1

theorem popDue (h : q.Sound) (hpop : q.popDue now = (some e, q')) : q'.Sound := by
  obtain ⟨hq, hlast, _⟩ := popDue_eq_some hpop
  refine ⟨(List.pairwise_cons.mp (hq ▸ h.ordered)).2, fun f hf => ?_⟩
  rw [hlast]
  exact h.number_le f (hq ▸ List.mem_cons_of_mem e hf)

/-- The entry that leaves the queue is due no later than the rest. -/
theorem due_le_of_popDue (h : q.Sound) (hpop : q.popDue now = (some e, q')) :
    ∀ f ∈ q'.entries, e.due ≤ f.due := by
  intro f hf
  have hq := (popDue_eq_some hpop).1
  exact due_le_of_before ((List.pairwise_cons.mp (hq ▸ h.ordered)).1 f hf)

theorem lt_due_of_popDue (h : q.Sound) (hpop : (q.popDue now).1 = none) :
    ∀ e ∈ q.entries, now < e.due := by
  intro e he
  unfold TimerQueue.popDue at hpop
  split at hpop
  · rename_i hq
    rw [hq] at he
    cases he
  · rename_i f r hq
    split at hpop
    · cases hpop
    · rename_i hdue
      have ho := h.ordered
      rw [hq] at ho he
      refine Nat.lt_of_lt_of_le (Nat.lt_of_not_le hdue) ?_
      rcases List.mem_cons.mp he with rfl | he
      · exact Nat.le_refl _
      · exact due_le_of_before ((List.pairwise_cons.mp ho).1 e he)

/-- A new entry that is due at once has to wait for all that is due. -/
theorem popDue_insert (h : q.Sound) (item : α) :
    ((q.insert now item).popDue now).1 =
      (q.popDue now).1.or (some ⟨now, q.last + 1, item⟩) := by
  cases hq : q.entries with
  | nil =>
    unfold TimerQueue.popDue TimerQueue.insert
    rw [hq]
    simp only [place, Nat.le_refl, if_true, Option.none_or]
  | cons f r =>
    have hf := h.fresh f (hq ▸ List.mem_cons_self)
    unfold TimerQueue.popDue TimerQueue.insert
    rw [hq]
    by_cases hdue : f.due ≤ now
    · have hbefore : Entry.before ⟨now, q.last + 1, item⟩ f = false := by
        refine Bool.eq_false_iff.mpr fun hb => ?_
        rcases before_iff.mp hb with hlt | ⟨_, hn⟩
        · exact Nat.lt_irrefl _ (Nat.lt_of_lt_of_le hlt hdue)
        · exact Nat.lt_asymm hn hf
      have hsame : Entry.sameKey ⟨now, q.last + 1, item⟩ f = false := by
        refine Bool.eq_false_iff.mpr fun hs => ?_
        simp only [Entry.sameKey, Bool.and_eq_true, beq_iff_eq] at hs
        exact Nat.lt_irrefl _ (hs.2 ▸ hf)
      simp only [place, hbefore, hsame, hdue, Bool.false_eq_true, if_false, if_true, Option.some_or]
    · have hbefore : Entry.before ⟨now, q.last + 1, item⟩ f = true :=
        before_iff.mpr (.inl (Nat.lt_of_not_le hdue))
      simp only [place, hbefore, hdue, Nat.le_refl, if_true, if_false, Option.none_or]

end Sound

end Outbox.TimerQueue
