import Outbox.Proofs.Wire.Values

/-! # The fields of a record

A record is an array of its fields in their order, or an object that has each field under its name,
in any order and with any others among them. Main statements: `record?_of_isRecord`, and
`tokens_subset_of_record?`, the fields are found in the text of the record. -/
namespace Outbox.Json.Tree
set_option autoImplicit false

variable {named : List (String × Tree)} {names : List String} {fields : List Tree} {t f : Tree}

/-- The record that has these fields under these names. -/
inductive IsRecord (named : List (String × Tree)) : Tree → Prop
  | array : IsRecord named (.array (named.map (·.2)))
  | object (members others : List (Option String × Tree))
    (hperm : members.Perm (named.map (fun m => (some m.1, m.2)) ++ others))
    (hothers : ∀ m ∈ others, ∃ k, m.1 = some k ∧ k ∉ named.map (·.1)) :
    IsRecord named (.object members)

/-! ## Reading -/

theorem mapM_eq_some_iff {α β : Type} {f : α → Option β} {as : List α} {bs : List β} :
    as.mapM f = some bs ↔ List.Forall₂ (fun a b => f a = some b) as bs := by
  induction as generalizing bs with
  | nil => simp [eq_comm]
  | cons a as ih =>
    cases bs with
    | nil => simp [List.mapM_cons, Option.bind_eq_some_iff]
    | cons b bs => simp [List.mapM_cons, ← ih, Option.bind_eq_some_iff]

theorem filter_name_eq_singleton {m : String × Tree} (hn : (named.map (·.1)).Nodup)
    (hm : m ∈ named) : named.filter (·.1 == m.1) = [m] := by
  induction named with
  | nil => exact absurd hm List.not_mem_nil
  | cons x r ih =>
    obtain ⟨hx, hr⟩ := List.nodup_cons.mp hn
    rcases List.mem_cons.mp hm with rfl | hm
    · have hnone : r.filter (·.1 == m.1) = [] := by
        refine List.filter_eq_nil_iff.mpr fun y hy he => hx ?_
        exact List.mem_map.mpr ⟨y, hy, beq_iff_eq.mp he⟩
      rw [List.filter_cons, if_pos (beq_self_eq_true m.1), hnone]
    · have hne : ¬ (x.1 == m.1) = true := fun he =>
        hx (List.mem_map.mpr ⟨m, hm, (beq_iff_eq.mp he).symm⟩)
      rw [List.filter_cons, if_neg hne, ih hr hm]

/-- Each name stands once among the members. -/
theorem filter_member_eq_singleton {members others : List (Option String × Tree)}
    {m : String × Tree} (hn : (named.map (·.1)).Nodup)
    (hperm : members.Perm (named.map (fun m => (some m.1, m.2)) ++ others))
    (hothers : ∀ m ∈ others, ∃ k, m.1 = some k ∧ k ∉ named.map (·.1)) (hm : m ∈ named) :
    members.filter (·.1 == some m.1) = [(some m.1, m.2)] := by
  have hrest : others.filter (·.1 == some m.1) = [] := by
    refine List.filter_eq_nil_iff.mpr fun x hx he => ?_
    obtain ⟨k, hk, hne⟩ := hothers x hx
    have hkm : k = m.1 := Option.some.inj (hk.symm.trans (beq_iff_eq.mp he))
    exact hne (hkm ▸ List.mem_map_of_mem hm)
  have hown : (named.map fun m => (some m.1, m.2)).filter (·.1 == some m.1) =
      [(some m.1, m.2)] := by
    have hkeys : (fun x : String × Tree => some x.1 == some m.1) = (·.1 == m.1) := rfl
    rw [List.filter_map, Function.comp_def, hkeys, filter_name_eq_singleton hn hm]
    rfl
  have hfilter := hperm.filter (·.1 == some m.1)
  rw [List.filter_append, hown, hrest] at hfilter
  exact List.perm_singleton.mp hfilter

theorem record?_of_isRecord (h : IsRecord named t) (hn : (named.map (·.1)).Nodup) :
    t.record? (named.map (·.1)) = some (named.map (·.2)) := by
  cases h with
  | array => simp [record?]
  | object members others hperm hothers =>
    have hkeys : ∀ m ∈ members, m.1.isSome = true := by
      intro m hm
      rcases List.mem_append.mp (hperm.mem_iff.mp hm) with hm | hm
      · obtain ⟨x, -, rfl⟩ := List.mem_map.mp hm
        rfl
      · obtain ⟨k, hk, -⟩ := hothers m hm
        rw [hk]
        rfl
    rw [record?, if_pos (List.all_eq_true.mpr hkeys)]
    rw [mapM_eq_some_iff, List.forall₂_map_left_iff, List.forall₂_map_right_iff, List.forall₂_same]
    intro m hm
    have hfilter := filter_member_eq_singleton hn hperm hothers hm
    simp only [hfilter]

/-! ## Where the fields are -/

theorem tokens_subset_of_record? (h : t.record? names = some fields) (hf : f ∈ fields) :
    f.tokens ⊆ t.tokens := by
  cases t with
  | array items =>
    rw [record?] at h
    split at h
    · obtain rfl := Option.some.inj h
      exact fun tok htok => by simp [tokens, tokens_subset_itemTokens hf htok]
    · cases h
  | object members =>
    rw [record?] at h
    split at h
    · obtain ⟨name, -, hname⟩ := exists_mem_of_forall₂ (mapM_eq_some_iff.mp h) hf
      split at hname
      · rename_i k u hfilter
        obtain rfl := Option.some.inj hname
        have hmem : (k, u) ∈ members := (List.mem_filter.mp (hfilter ▸ List.mem_cons_self)).1
        exact fun tok htok => by simp [tokens, tokens_subset_memberTokens hmem htok]
      · cases hname
    · cases h
  | _ => cases h

end Outbox.Json.Tree
