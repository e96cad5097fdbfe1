import Outbox.Proofs.TimerQueue.Order

/-! # A timer queue is a stable priority list

In plain words a timer queue holds what was put into it, in the order in which it came, and hands
out the first that came among those that are due first. `Listing` says this with a plain list, and
every sequence of calls is answered by the queue as the list answers it. Main statement:
`answers_as_listing`; it takes one lemma for each call and an induction over the calls. -/
namespace Outbox
set_option autoImplicit false

variable {α : Type}

/-- What waits with its due time, in the order in which it came. -/
abbrev Listing (α : Type) := List (Instant × α)

namespace Listing

def nextDue? (l : Listing α) : Option Instant := (l.map (·.1)).min?

/-- The first that came of those that are due first, if they are due. -/
def popDue (l : Listing α) (now : Instant) : Option α × Listing α :=
  match l.nextDue? with
  | none => (none, l)
  | some due =>
    if due ≤ now then ((l.find? (·.1 == due)).map (·.2), l.eraseP (·.1 == due)) else (none, l)

end Listing

namespace TimerQueue

/-- What is asked of a timer queue. -/
inductive Call (α : Type) where
  | insert (due : Instant) (item : α)
  | popDue (now : Instant)
  | removeAll (p : α → Bool)
  | clear
  | nextDue
  | size

inductive Answer (α : Type) where
  | done
  | item (a : Option α)
  | due (t : Option Instant)
  | number (n : Nat)
  deriving DecidableEq

def Call.isInsert : Call α → Bool
  | .insert _ _ => true
  | _ => false

def answer (q : TimerQueue α) : Call α → Answer α × TimerQueue α
  | .insert due item => (.done, q.insert due item)
  | .popDue now => (.item ((q.popDue now).1.map (·.item)), (q.popDue now).2)
  | .removeAll p => (.number (q.removeAll p).1, (q.removeAll p).2)
  | .clear => (.done, q.clear)
  | .nextDue => (.due q.nextDue?, q)
  | .size => (.number q.size, q)

def answers (q : TimerQueue α) : List (Call α) → List (Answer α) × TimerQueue α
  | [] => ([], q)
  | c :: cs =>
    let (as, q') := answers (q.answer c).2 cs
    ((q.answer c).1 :: as, q')

end TimerQueue

namespace Listing
open TimerQueue (Call Answer)

def answer (l : Listing α) : Call α → Answer α × Listing α
  | .insert due item => (.done, l ++ [(due, item)])
  | .popDue now => (.item (l.popDue now).1, (l.popDue now).2)
  | .removeAll p => (.number (l.countP (p ·.2)), l.filter (!p ·.2))
  | .clear => (.done, [])
  | .nextDue => (.due l.nextDue?, l)
  | .size => (.number l.length, l)

def answers (l : Listing α) : List (Call α) → List (Answer α) × Listing α
  | [] => ([], l)
  | c :: cs =>
    let (as, l') := answers (l.answer c).2 cs
    ((l.answer c).1 :: as, l')

end Listing

namespace TimerQueue

def Entry.listed (e : Entry α) : Instant × α := (e.due, e.item)

/-- `arrivals` are the entries of the queue, in the order of their numbers. -/
structure Lists (q : TimerQueue α) (arrivals : List (Entry α)) : Prop where
  sound : q.Sound
  perm : arrivals.Perm q.entries
  inOrder : arrivals.Pairwise fun e f => e.number < f.number

namespace Lists
variable {q q' : TimerQueue α} {arrivals : List (Entry α)} {e : Entry α} {now : Instant}

theorem empty (last : Nat) : Lists ({ last } : TimerQueue α) [] :=
  ⟨⟨.nil, by simp⟩, .nil, .nil⟩

theorem mem_iff (h : q.Lists arrivals) : e ∈ arrivals ↔ e ∈ q.entries := h.perm.mem_iff

theorem insert (h : q.Lists arrivals) (due : Instant) (item : α) :
    (q.insert due item).Lists (arrivals ++ [⟨due, q.last + 1, item⟩]) := by
  refine ⟨h.sound.insert due item, ?_, ?_⟩
  · have hplace := place_perm (e := ⟨due, q.last + 1, item⟩) h.sound.fresh
    exact ((List.perm_append_singleton _ _).trans (h.perm.cons _)).trans hplace.symm
  · refine List.pairwise_append.mpr ⟨h.inOrder, List.pairwise_singleton _ _, ?_⟩
    intro f hf g hg
    rw [List.mem_singleton.mp hg]
    exact h.sound.fresh f (h.mem_iff.mp hf)

theorem removeAll (h : q.Lists arrivals) (p : α → Bool) :
    (q.removeAll p).2.Lists (arrivals.filter (!p ·.item)) :=
  ⟨h.sound.removeAll p, h.perm.filter _, h.inOrder.filter _⟩

/-! ## The first entry -/

theorem nextDue (h : q.Lists arrivals) : q.nextDue? = (arrivals.map (·.due)).min? := by
  unfold nextDue?
  cases hq : q.entries with
  | nil =>
    have hnil : arrivals = [] := List.perm_nil.mp (hq ▸ h.perm)
    simp [hnil]
  | cons e r =>
    have hmin : (arrivals.map (·.due)).min? = some e.due := by
      refine List.min?_eq_some_iff.mpr ⟨?_, ?_⟩
      · exact List.mem_map_of_mem (h.mem_iff.mpr (by simp [hq]))
      · intro t ht
        obtain ⟨f, hf, rfl⟩ := List.mem_map.mp ht
        have hhead := (List.pairwise_cons.mp (hq ▸ h.sound.ordered)).1
        have hmem := h.mem_iff.mp hf
        rw [hq] at hmem
        rcases List.mem_cons.mp hmem with rfl | hr
        · exact Nat.le_refl _
        · exact due_le_of_before (hhead f hr)
    simp [hmin]

/-- Whatever came before the first entry of a queue is due later than it. -/
theorem split (h : q.Lists arrivals) {r : List (Entry α)} (hq : q.entries = e :: r) :
    ∃ before after, arrivals = before ++ e :: after ∧ ∀ f ∈ before, f.due ≠ e.due := by
  obtain ⟨before, after, rfl⟩ := List.append_of_mem (h.mem_iff.mpr (by simp [hq] : e ∈ q.entries))
  refine ⟨before, after, rfl, ?_⟩
  intro f hf hdue
  have hnumber : f.number < e.number := (List.pairwise_append.mp h.inOrder).2.2 f hf e (by simp)
  have hmem : f ∈ e :: r := hq ▸ h.mem_iff.mp (List.mem_append_left _ hf)
  have hbefore : e.before f = true := by
    rcases List.mem_cons.mp hmem with rfl | hr
    · exact absurd hnumber (Nat.lt_irrefl _)
    · exact (List.pairwise_cons.mp (hq ▸ h.sound.ordered)).1 f hr
  rw [before_iff] at hbefore
  grind

end Lists

/-- The list that stands for a queue. -/
def Refines (q : TimerQueue α) (l : Listing α) : Prop :=
  ∃ arrivals, q.Lists arrivals ∧ arrivals.map Entry.listed = l

namespace Refines
variable {q : TimerQueue α} {l : Listing α}

theorem nextDue (h : q.Refines l) : q.nextDue? = l.nextDue? := by
  obtain ⟨arrivals, hlists, rfl⟩ := h
  rw [hlists.nextDue, Listing.nextDue?, List.map_map]
  rfl

theorem popDue (h : q.Refines l) (now : Instant) :
    (q.popDue now).1.map (·.item) = (l.popDue now).1 ∧ (q.popDue now).2.Refines (l.popDue now).2 := by
  have hnext := h.nextDue
  have hkeep := h
  obtain ⟨arrivals, hlists, rfl⟩ := h
  unfold Listing.popDue
  rw [← hnext]
  cases hq : q.entries with
  | nil => simpa [TimerQueue.popDue, nextDue?, hq] using hkeep
  | cons e r =>
    by_cases hdue : e.due ≤ now
    · have hpop : q.popDue now = (some e, { q with entries := r }) := by
        simp [TimerQueue.popDue, hq, hdue]
      obtain ⟨before, after, rfl, hlate⟩ := hlists.split hq
      have hnone : ∀ x ∈ before.map Entry.listed, ¬ (x.1 == e.due) = true := by
        intro x hx
        obtain ⟨f, hf, rfl⟩ := List.mem_map.mp hx
        simpa [Entry.listed] using hlate f hf
      have hfind : ((before ++ e :: after).map Entry.listed).find? (·.1 == e.due) =
          some e.listed := by
        rw [List.map_append, List.find?_append, List.find?_eq_none.mpr hnone]
        simp [Entry.listed]
      have herase : ((before ++ e :: after).map Entry.listed).eraseP (·.1 == e.due) =
          (before ++ after).map Entry.listed := by
        rw [List.map_append, List.eraseP_append_right _ hnone]
        simp [Entry.listed]
      have hrest : ({ q with entries := r } : TimerQueue α).Lists (before ++ after) := by
        refine ⟨hlists.sound.popDue hpop, ?_, ?_⟩
        · have hperm : (e :: (before ++ after)).Perm (e :: r) :=
            List.perm_middle.symm.trans (hq ▸ hlists.perm)
          exact hperm.cons_inv
        · exact hlists.inOrder.sublist
            (List.Sublist.append_left (List.sublist_cons_self e after) before)
      simp only [nextDue?, hq, List.head?_cons, Option.map_some, hdue, if_true, hpop, hfind, herase]
      exact ⟨rfl, before ++ after, hrest, rfl⟩
    · have hpop : q.popDue now = (none, q) := by simp [TimerQueue.popDue, hq, hdue]
      simp only [nextDue?, hq, List.head?_cons, Option.map_some, hdue, if_false, hpop]
      exact ⟨rfl, hkeep⟩

/-! ## Calls -/

/-- One case for each call. -/
theorem answer (h : q.Refines l) (c : Call α) :
    (q.answer c).1 = (l.answer c).1 ∧ (q.answer c).2.Refines (l.answer c).2 := by
  have hkeep := h
  obtain ⟨arrivals, hlists, rfl⟩ := h
  cases c with
  | insert due item =>
    refine ⟨rfl, _, hlists.insert due item, ?_⟩
    simp [Listing.answer, Entry.listed]
  | popDue now =>
    obtain ⟨hitem, hrest⟩ := hkeep.popDue now
    exact ⟨congrArg Answer.item hitem, hrest⟩
  | removeAll p =>
    refine ⟨?_, _, hlists.removeAll p, ?_⟩
    · have hcount := hlists.perm.countP_eq (p ·.item)
      simp [TimerQueue.answer, Listing.answer, TimerQueue.removeAll, List.countP_map, ← hcount,
        Function.comp_def, Entry.listed]
    · simp [Listing.answer, List.filter_map, Function.comp_def, Entry.listed]
  | clear => exact ⟨rfl, [], .empty q.last, rfl⟩
  | nextDue => exact ⟨congrArg Answer.due hkeep.nextDue, hkeep⟩
  | size =>
    refine ⟨?_, hkeep⟩
    simp [TimerQueue.answer, Listing.answer, TimerQueue.size, hlists.perm.length_eq]

theorem answers (h : q.Refines l) (cs : List (Call α)) :
    (q.answers cs).1 = (l.answers cs).1 ∧ (q.answers cs).2.Refines (l.answers cs).2 := by
  induction cs generalizing q l with
  | nil => exact ⟨rfl, h⟩
  | cons c cs ih =>
    obtain ⟨hanswer, hnext⟩ := h.answer c
    obtain ⟨hanswers, hend⟩ := ih hnext
    refine ⟨?_, hend⟩
    show (q.answer c).1 :: _ = (l.answer c).1 :: _
    rw [hanswer, hanswers]

theorem perm (h : q.Refines l) : (q.entries.map Entry.listed).Perm l := by
  obtain ⟨arrivals, hlists, rfl⟩ := h
  exact (hlists.perm.map _).symm

end Refines

/-- Numbers are given to what is put in, and to nothing else. -/
theorem last_answer (q : TimerQueue α) (c : Call α) :
    (q.answer c).2.last = q.last + c.isInsert.toNat := by
  cases c with
  | popDue now =>
    unfold answer popDue
    cases q.entries with
    | nil => rfl
    | cons e r => by_cases hdue : e.due ≤ now <;> simp [hdue, Call.isInsert]
  | insert | removeAll | clear | nextDue | size => rfl

theorem last_answers (q : TimerQueue α) (cs : List (Call α)) :
    (q.answers cs).2.last = q.last + cs.countP Call.isInsert := by
  induction cs generalizing q with
  | nil => rfl
  | cons c cs ih =>
    have hrest : (q.answers (c :: cs)).2.last = (q.answer c).2.last + cs.countP Call.isInsert :=
      ih (q.answer c).2
    rw [hrest, last_answer, List.countP_cons]
    cases c.isInsert with
    | false => rfl
    | true =>
      change q.last + 1 + _ = q.last + (_ + 1)
      omega

/-- Whatever is asked of a new queue, the answers are those of the plain list, and in the end the
queue holds what the list holds. As long as fewer than 2^64 items are put in, the number of every
entry is a machine word. -/
theorem answers_as_listing (cs : List (Call α)) :
    (answers {} cs).1 = (Listing.answers [] cs).1 ∧
    ((answers {} cs).2.entries.map Entry.listed).Perm (Listing.answers [] cs).2 ∧
    (cs.countP Call.isInsert < UInt64.size →
      ∀ e ∈ (answers {} cs).2.entries, e.number < UInt64.size) := by
  have hrefines : ({} : TimerQueue α).Refines [] := ⟨[], .empty 0, rfl⟩
  obtain ⟨hanswers, hend⟩ := hrefines.answers cs
  refine ⟨hanswers, hend.perm, ?_⟩
  intro hfew e he
  have hlast := last_answers ({} : TimerQueue α) cs
  obtain ⟨_, hlists, _⟩ := hend
  have hnumber := hlists.sound.number_le e he
  rw [hlast, Nat.zero_add] at hnumber
  exact Nat.lt_of_le_of_lt hnumber hfew

/-- Of four items the two that are due first leave in the order in which they came, one is taken
out, and a call at an earlier instant gets nothing. -/
def sampleCalls : List (Call Nat) :=
  [.insert 7 1, .insert 5 2, .insert 5 3, .insert 9 4, .nextDue, .popDue 6, .popDue 4, .popDue 6,
    .removeAll (· == 4), .size]

theorem equal_dues_in_order :
    (answers {} sampleCalls).1 = [.done, .done, .done, .done, .due (some 5), .item (some 2),
      .item none, .item (some 3), .number 1, .number 1] ∧
    ∀ e ∈ (answers {} sampleCalls).2.entries, e.number < UInt64.size := by
  obtain ⟨hanswers, _, hwords⟩ := answers_as_listing sampleCalls
  exact ⟨hanswers.trans (by decide), hwords (by decide)⟩

end TimerQueue

end Outbox
