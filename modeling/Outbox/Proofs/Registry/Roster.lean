import Mathlib.Data.List.Induction
import Mathlib.Data.List.Perm.Basic
import Outbox.Registry

/-! # The members of a registry, from the calls made so far

A registry knows its members only by who they are: what they would do with a notice is nowhere
looked at. From the calls alone, a member is whoever was added and not removed since, and its place
among the members is that of the add that made it one. Such a list is called the roster of the
calls; there is no other. Main statement: `members_are_roster`. -/
namespace Outbox.Registry
set_option autoImplicit false

variable {α : Type}

/-- What changes a registry. -/
inductive Call (α : Type) where
  | add (a : α)
  | remove (a : α)
  deriving DecidableEq

variable {calls : List (Call α)} {c : Call α} {a b : α} {i j : Nat}

/-! ## What the calls say -/

/-- An add of `a` is not followed by a remove. -/
def Stays (calls : List (Call α)) (a : α) : Prop :=
  ∃ i : Nat, calls[i]? = some (.add a) ∧ ∀ j, i < j → calls[j]? ≠ some (.remove a)

/-- The call at `i` is the add that last made `a` a member: no remove of `a` follows it, and there
is one between every earlier add of `a` and it. -/
structure JoinedAt (calls : List (Call α)) (a : α) (i : Nat) : Prop where
  isAdd : calls[i]? = some (.add a)
  kept : ∀ j, i < j → calls[j]? ≠ some (.remove a)
  fresh : ∀ j < i, calls[j]? = some (.add a) → ∃ k, j < k ∧ k < i ∧ calls[k]? = some (.remove a)

/-- `a` was made a member before `b` was. -/
def JoinedBefore (calls : List (Call α)) (a b : α) : Prop :=
  ∃ i j, JoinedAt calls a i ∧ JoinedAt calls b j ∧ i < j

/-- Those who were added and not removed since, in the order in which they were made members. -/
structure Roster (calls : List (Call α)) (l : List α) : Prop where
  nodup : l.Nodup
  mem_iff : ∀ a, a ∈ l ↔ Stays calls a
  inOrder : l.Pairwise (JoinedBefore calls)

/-- Two adds that both last made `a` a member are one. -/
theorem JoinedAt.unique (hi : JoinedAt calls a i) (hj : JoinedAt calls a j) : i = j := by
  have hle : ∀ {i j}, JoinedAt calls a i → JoinedAt calls a j → j ≤ i := by
    intro i j hi hj
    refine Nat.not_lt.mp fun hlt => ?_
    obtain ⟨k, hk, -, hremove⟩ := hj.fresh i hlt hi.isAdd
    exact hi.kept k hk hremove
  exact Nat.le_antisymm (hle hj hi) (hle hi hj)

theorem JoinedBefore.asymm (h : JoinedBefore calls a b) : ¬ JoinedBefore calls b a := by
  obtain ⟨i, j, ha, hb, hlt⟩ := h
  rintro ⟨j', i', hb', ha', hlt'⟩
  rw [hb'.unique hb, ha'.unique ha] at hlt'
  omega

theorem Roster.unique {l l' : List α} (h : Roster calls l) (h' : Roster calls l') : l = l' := by
  have hperm : l.Perm l' := (List.perm_ext_iff_of_nodup h.nodup h'.nodup).mpr fun a =>
    (h.mem_iff a).trans (h'.mem_iff a).symm
  exact hperm.eq_of_pairwise (fun _ _ _ _ hab hba => absurd hba hab.asymm) h.inOrder h'.inOrder

/-! ## One more call -/

theorem lt_length_of_getElem? {x : Call α} (h : calls[i]? = some x) : i < calls.length :=
  (List.getElem?_eq_some_iff.mp h).1

theorem getElem?_concat_eq_some {x : Call α} :
    (calls ++ [c])[i]? = some x ↔ calls[i]? = some x ∨ (i = calls.length ∧ x = c) := by
  rcases Nat.lt_trichotomy i calls.length with hi | rfl | hi
  · rw [List.getElem?_append_left hi]
    simp [Nat.ne_of_lt hi]
  · rw [List.getElem?_concat_length, List.getElem?_eq_none (Nat.le_refl _)]
    simp [eq_comm]
  · rw [List.getElem?_eq_none (by simp; omega), List.getElem?_eq_none (Nat.le_of_lt hi)]
    simp [Nat.ne_of_gt hi]

/-- Nothing follows the last call. -/
theorem getElem?_concat_ne {x : Call α} (hj : calls.length < j) :
    (calls ++ [c])[j]? ≠ some x := by
  intro h
  rcases getElem?_concat_eq_some.mp h with h | ⟨rfl, -⟩
  · exact Nat.lt_asymm hj (lt_length_of_getElem? h)
  · exact Nat.lt_irrefl _ hj

theorem stays_concat :
    Stays (calls ++ [c]) a ↔ c = .add a ∨ (Stays calls a ∧ c ≠ .remove a) := by
  constructor
  · rintro ⟨i, hadd, hkept⟩
    rcases getElem?_concat_eq_some.mp hadd with hearlier | ⟨-, hlast⟩
    · refine .inr ⟨⟨i, hearlier, fun j hj hremove => ?_⟩, ?_⟩
      · exact hkept j hj (getElem?_concat_eq_some.mpr (.inl hremove))
      · rintro rfl
        exact hkept calls.length (lt_length_of_getElem? hearlier) List.getElem?_concat_length
    · exact .inl hlast.symm
  · rintro (rfl | ⟨⟨i, hadd, hkept⟩, hc⟩)
    · exact ⟨calls.length, List.getElem?_concat_length, fun j hj => getElem?_concat_ne hj⟩
    · refine ⟨i, getElem?_concat_eq_some.mpr (.inl hadd), fun j hj hremove => ?_⟩
      rcases getElem?_concat_eq_some.mp hremove with hremove | ⟨-, hremove⟩
      · exact hkept j hj hremove
      · exact hc hremove.symm

/-- Calls about others, and an add of a member, leave it where it is. -/
theorem JoinedAt.concat (h : JoinedAt calls a i) (hc : c ≠ .remove a) :
    JoinedAt (calls ++ [c]) a i := by
  refine ⟨getElem?_concat_eq_some.mpr (.inl h.isAdd), ?_, ?_⟩
  · intro j hj hremove
    rcases getElem?_concat_eq_some.mp hremove with hremove | ⟨-, hremove⟩
    · exact h.kept j hj hremove
    · exact hc hremove.symm
  · intro j hj hadd
    rcases getElem?_concat_eq_some.mp hadd with hadd | ⟨rfl, -⟩
    · obtain ⟨k, hjk, hki, hremove⟩ := h.fresh j hj hadd
      exact ⟨k, hjk, hki, getElem?_concat_eq_some.mpr (.inl hremove)⟩
    · exact absurd (lt_length_of_getElem? h.isAdd) (Nat.lt_asymm hj)

/-- The add of somebody absent makes it a member. -/
theorem joinedAt_length (h : ¬ Stays calls a) : JoinedAt (calls ++ [.add a]) a calls.length := by
  refine ⟨List.getElem?_concat_length, fun j hj => getElem?_concat_ne hj, fun j hj hadd => ?_⟩
  rcases getElem?_concat_eq_some.mp hadd with hadd | ⟨rfl, -⟩
  · -- Without a remove after it, the earlier add would have kept `a` a member.
    by_contra hnone
    refine h ⟨j, hadd, fun k hk hremove => hnone ⟨k, hk, lt_length_of_getElem? hremove, ?_⟩⟩
    exact getElem?_concat_eq_some.mpr (.inl hremove)
  · exact absurd hj (Nat.lt_irrefl _)

theorem JoinedBefore.concat (h : JoinedBefore calls a b) (ha : c ≠ .remove a)
    (hb : c ≠ .remove b) : JoinedBefore (calls ++ [c]) a b := by
  obtain ⟨i, j, hi, hj, hlt⟩ := h
  exact ⟨i, j, hi.concat ha, hj.concat hb, hlt⟩

theorem Stays.exists_joinedAt (h : Stays calls a) : ∃ i, JoinedAt calls a i := by
  induction calls using List.reverseRecOn with
  | nil =>
    obtain ⟨i, hadd, -⟩ := h
    simp at hadd
  | append_singleton calls c ih =>
    by_cases hbefore : Stays calls a
    · obtain ⟨i, hi⟩ := ih hbefore
      refine ⟨i, hi.concat ?_⟩
      rintro rfl
      simpa using stays_concat.mp h
    · rcases stays_concat.mp h with rfl | ⟨hs, -⟩
      · exact ⟨_, joinedAt_length hbefore⟩
      · exact absurd hs hbefore

/-! ## The registry keeps the roster -/

theorem roster_nil : Roster ([] : List (Call α)) [] where
  nodup := List.nodup_nil
  mem_iff a := by simp [Stays]
  inOrder := .nil

variable [DecidableEq α]

def answer (r : Registry α) : Call α → Bool × Registry α
  | .add a => r.add a
  | .remove a => r.remove a

/-- A registry that was empty before these calls. -/
def after (calls : List (Call α)) : Registry α := calls.foldl (fun r c => (r.answer c).2) {}

theorem after_concat : after (calls ++ [c]) = ((after calls).answer c).2 := by
  simp [after]

/-- An add of a member changes nothing, and one of somebody absent puts it at the end. -/
theorem Roster.add {r : Registry α} (h : Roster calls r.members) (a : α) :
    Roster (calls ++ [.add a]) (r.add a).2.members where
  nodup := r.nodup_add a h.nodup
  mem_iff b := by
    rw [mem_add, h.mem_iff, stays_concat]
    simp [eq_comm]
  inOrder := by
    have hkept : r.members.Pairwise (JoinedBefore (calls ++ [.add a])) :=
      h.inOrder.imp fun hab => hab.concat nofun nofun
    unfold Registry.add
    split
    · exact hkept
    · rename_i ha
      refine List.pairwise_append.mpr ⟨hkept, List.pairwise_singleton _ _, ?_⟩
      intro b hb x hx
      obtain rfl := List.mem_singleton.mp hx
      obtain ⟨i, hi⟩ := ((h.mem_iff b).mp hb).exists_joinedAt
      exact ⟨i, calls.length, hi.concat nofun, joinedAt_length (mt (h.mem_iff x).mpr ha),
        lt_length_of_getElem? hi.isAdd⟩

/-- A remove takes out its member and leaves the order of the others. -/
theorem Roster.remove {r : Registry α} (h : Roster calls r.members) (a : α) :
    Roster (calls ++ [.remove a]) (r.remove a).2.members where
  nodup := r.nodup_remove a h.nodup
  mem_iff b := by
    rw [mem_remove, h.mem_iff, stays_concat]
    simp [eq_comm]
  inOrder := by
    have hothers : (r.remove a).2.members.Pairwise (JoinedBefore calls) :=
      List.Pairwise.filter _ h.inOrder
    refine hothers.imp_of_mem fun {b x} hb hx hbefore => hbefore.concat ?_ ?_
    · rintro ⟨⟩
      exact ((r.mem_remove a a).mp hb).2 rfl
    · rintro ⟨⟩
      exact ((r.mem_remove a a).mp hx).2 rfl

theorem roster_after (calls : List (Call α)) : Roster calls (after calls).members := by
  induction calls using List.reverseRecOn with
  | nil => exact roster_nil
  | append_singleton calls c ih =>
    rw [after_concat]
    cases c with
    | add a => exact ih.add a
    | remove a => exact ih.remove a

/-- Whatever was added and removed before: nobody is a member twice, the members are those who were
added and not removed since, in the order of the adds that made them members, and no other list has
these properties. An add answers whether its listener was absent and a remove whether it was there.
An add of a member changes nothing, one after a remove puts its listener at the end, and a remove
after an add that made its listener a member undoes it. -/
theorem members_are_roster (calls : List (Call α)) :
    (∀ l, Roster calls l ↔ l = (after calls).members) ∧
    (∀ a,
      (((after calls).add a).1 = true ↔ a ∉ (after calls).members) ∧
      (((after calls).remove a).1 = true ↔ a ∈ (after calls).members) ∧
      ((after calls).contains a = true ↔ a ∈ (after calls).members) ∧
      (a ∈ (after calls).members → ((after calls).add a).2 = after calls) ∧
      (((after calls).remove a).2.add a).2.members =
        (after calls).members.filter (· ≠ a) ++ [a] ∧
      (((after calls).add a).1 = true →
        ((after calls).add a).2.remove a = (true, after calls))) ∧
    (after calls).size = (after calls).members.length ∧
    ((after calls).isEmpty = true ↔ (after calls).members = []) := by
  refine ⟨fun l => ⟨fun h => h.unique (roster_after calls), ?_⟩, fun a => ?_, rfl,
    List.isEmpty_iff⟩
  · rintro rfl
    exact roster_after calls
  · generalize after calls = r
    refine ⟨r.add_eq_true_iff a, decide_eq_true_iff, r.contains_iff a, fun h => ?_, ?_, fun h => ?_⟩
    · simp [add, h]
    · simp [add, remove]
    · have habsent := (r.add_eq_true_iff a).mp h
      refine Prod.ext ?_ (r.remove_add a habsent)
      exact decide_eq_true ((r.mem_add a a).mpr (.inl rfl))

/-- Two listeners that say the same are two members, and one that comes back comes last. -/
example : (after [.add (0, "yes"), .add (1, "yes"), .add (0, "yes"), .remove (0, "yes"),
    .add (2, "no"), .add (0, "yes")]).members = [(1, "yes"), (2, "no"), (0, "yes")] := by
  decide

end Outbox.Registry
