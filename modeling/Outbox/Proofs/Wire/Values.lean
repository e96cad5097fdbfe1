import Mathlib.Data.List.Forall2
import Outbox.Proofs.Wire.Trees

/-! # Values and their trees

A value has a tree, in which every number and every text has its value. It is the value of its tree
if its numbers are words and its objects are maps sorted by key. Only such values come out of a
tree whose numbers are words, whatever the order of its members is and however often a key is
repeated. Main statements: `toValue?_toTree` and `sound_of_toValue?`. -/
namespace Outbox.Json
set_option autoImplicit false

/-! ## Sorted maps -/

namespace Value

/-- Sorted by key, and no key twice. -/
def Ordered (members : List (String × Value)) : Prop := members.Pairwise fun m n => m.1 < n.1

variable {k : String} {v : Value} {members : List (String × Value)} {m : String × Value}

theorem ordered_iff : Ordered members ↔ (members.map (·.1)).Pairwise (· < ·) :=
  List.pairwise_map.symm

theorem mem_of_mem_insertMember (h : m ∈ insertMember k v members) : m = (k, v) ∨ m ∈ members := by
  induction members with
  | nil => exact .inl (List.mem_singleton.mp h)
  | cons n r ih =>
    rw [insertMember] at h
    split at h
    · exact List.mem_cons.mp h
    · split at h
      · exact (List.mem_cons.mp h).imp_right (List.mem_cons_of_mem n)
      · rcases List.mem_cons.mp h with rfl | h
        · exact .inr List.mem_cons_self
        · exact (ih h).imp_right (List.mem_cons_of_mem n)

theorem Ordered.insertMember (h : Ordered members) (k : String) (v : Value) :
    Ordered (insertMember k v members) := by
  induction members with
  | nil => exact List.pairwise_singleton _ _
  | cons n r ih =>
    obtain ⟨hn, hr⟩ := List.pairwise_cons.mp h
    rw [Value.insertMember]
    split
    · rename_i hlt
      refine List.pairwise_cons.mpr ⟨?_, h⟩
      intro m hm
      rcases List.mem_cons.mp hm with rfl | hm
      · exact hlt
      · exact String.lt_trans hlt (hn m hm)
    · split
      · rename_i heq
        subst heq
        exact List.pairwise_cons.mpr ⟨hn, hr⟩
      · rename_i hlt hne
        have hgt : n.1 < k := Std.lt_of_le_of_ne (String.not_lt.mp hlt) (Ne.symm hne)
        refine List.pairwise_cons.mpr ⟨?_, ih hr⟩
        intro m hm
        rcases mem_of_mem_insertMember hm with rfl | hm
        · exact hgt
        · exact hn m hm

/-- The greatest key goes to the end. -/
theorem insertMember_of_lt (h : ∀ m ∈ members, m.1 < k) :
    insertMember k v members = members ++ [(k, v)] := by
  induction members with
  | nil => rfl
  | cons n r ih =>
    obtain ⟨hn, hr⟩ := List.forall_mem_cons.mp h
    rw [insertMember, if_neg (String.lt_asymm hn), if_neg, ih hr]
    · rfl
    · rintro rfl
      exact String.lt_irrefl _ hn

/-- What is built member by member from what was there before. -/
theorem foldl_insertMember (acc : List (String × Value)) (h : Ordered (acc ++ members)) :
    members.foldl (fun acc (k, v) => insertMember k v acc) acc = acc ++ members := by
  induction members generalizing acc with
  | nil => simp
  | cons m r ih =>
    -- All keys before are smaller than the next one.
    obtain ⟨-, -, hlt⟩ := List.pairwise_append.mp h
    have hlast : insertMember m.1 m.2 acc = acc ++ [m] :=
      insertMember_of_lt fun n hn => hlt n hn m List.mem_cons_self
    rw [List.append_cons] at h ⊢
    exact (congrArg (r.foldl _) hlast).trans (ih _ h)

theorem ofMembers_of_ordered (h : Ordered members) : ofMembers members = .object members := by
  rw [ofMembers, foldl_insertMember [] h]
  rfl

theorem foldl_insertMember_spec (members acc : List (String × Value)) (h : Ordered acc) :
    Ordered (members.foldl (fun acc (k, v) => insertMember k v acc) acc) ∧
      ∀ m ∈ members.foldl (fun acc (k, v) => insertMember k v acc) acc, m ∈ acc ∨ m ∈ members := by
  induction members generalizing acc with
  | nil => exact ⟨h, fun m hm => .inl hm⟩
  | cons n r ih =>
    obtain ⟨hordered, hmem⟩ := ih _ (h.insertMember n.1 n.2)
    refine ⟨hordered, fun m hm => ?_⟩
    rcases hmem m hm with hm | hm
    · rcases mem_of_mem_insertMember hm with rfl | hm
      · exact .inr List.mem_cons_self
      · exact .inl hm
    · exact .inr (List.mem_cons_of_mem n hm)

/-- Whatever the members are, the map that is built from them is sorted. -/
theorem exists_ofMembers (members : List (String × Value)) : ∃ sorted,
    ofMembers members = .object sorted ∧ Ordered sorted ∧ ∀ m ∈ sorted, m ∈ members := by
  obtain ⟨hordered, hmem⟩ := foldl_insertMember_spec members [] .nil
  exact ⟨_, rfl, hordered, fun m hm => (hmem m hm).resolve_left List.not_mem_nil⟩

/-! ## Values and how they are written as trees -/

/-- A number that has a value when it is written as an integer. -/
def IsWord (n : Int) : Prop := -(UInt64.size / 2 : Nat) ≤ n ∧ n < UInt64.size

instance (n : Int) : Decidable (IsWord n) := inferInstanceAs (Decidable (_ ∧ _))

theorem isWord_iff {n : Int} :
    IsWord n ↔ -0x8000000000000000 ≤ n ∧ n < 0x10000000000000000 := Iff.rfl

/-- Numbers are words and objects are sorted maps, at every depth. -/
inductive Sound : Value → Prop
  | null : Sound .null
  | bool (b : Bool) : Sound (.bool b)
  | number (n : Int) (hn : IsWord n) : Sound (.number n)
  | text (s : String) : Sound (.text s)
  | array (items : List Value) (hitems : ∀ v ∈ items, Sound v) : Sound (.array items)
  | object (members : List (String × Value)) (hordered : Ordered members)
    (hmembers : ∀ m ∈ members, Sound m.2) : Sound (.object members)

mutual

def toTree : Value → Tree
  | null => .null
  | bool b => .bool b
  | number n => .number (some n)
  | text s => .text (some s)
  | array items => .array (itemTrees items)
  | object members => .object (memberTrees members)

def itemTrees : List Value → List Tree
  | [] => []
  | v :: r => toTree v :: itemTrees r

def memberTrees : List (String × Value) → List (Option String × Tree)
  | [] => []
  | (k, v) :: r => (some k, toTree v) :: memberTrees r

end

theorem itemTrees_eq_map (items : List Value) : itemTrees items = items.map toTree := by
  induction items with
  | nil => rfl
  | cons v r ih => rw [itemTrees, ih, List.map_cons]

theorem memberTrees_eq_map (members : List (String × Value)) :
    memberTrees members = members.map fun m => (some m.1, m.2.toTree) := by
  induction members with
  | nil => rfl
  | cons m r ih => rw [memberTrees, ih, List.map_cons]

theorem depthItems_le_iff {items : List Value} {d : Nat} :
    depthItems items ≤ d ↔ ∀ v ∈ items, v.depth ≤ d := by
  induction items with
  | nil => simp [depthItems]
  | cons v r ih => rw [depthItems, Nat.max_le, ih, List.forall_mem_cons]

theorem depthMembers_le_iff {d : Nat} :
    depthMembers members ≤ d ↔ ∀ m ∈ members, m.2.depth ≤ d := by
  induction members with
  | nil => simp [depthMembers]
  | cons m r ih => rw [depthMembers, Nat.max_le, ih, List.forall_mem_cons]

end Value

namespace Tree
open Value

variable {limit : Nat} {t : Tree} {v : Value}

theorem toItems?_eq_some_iff {ts : List Tree} {vs : List Value} :
    toItems? limit ts = some vs ↔ List.Forall₂ (fun t v => t.toValue? limit = some v) ts vs := by
  induction ts generalizing vs with
  | nil => simp [toItems?, eq_comm]
  | cons t r ih =>
    rw [toItems?]
    cases vs with
    | nil => simp [Option.bind_eq_some_iff]
    | cons v s => simp [← ih, Option.bind_eq_some_iff]

theorem toMembers?_eq_some_iff {ts : List (Option String × Tree)} {vs : List (String × Value)} :
    toMembers? limit ts = some vs ↔
      List.Forall₂ (fun t v => t.1 = some v.1 ∧ t.2.toValue? limit = some v.2) ts vs := by
  induction ts generalizing vs with
  | nil => simp [toMembers?, eq_comm]
  | cons t r ih =>
    rw [toMembers?]
    cases vs with
    | nil => simp [Option.bind_eq_some_iff]
    | cons v s =>
      simp [← ih, Option.bind_eq_some_iff, Prod.ext_iff]
      grind

theorem toValue?_toTree {v : Value} {limit : Nat} (h : v.Sound) (hd : v.depth ≤ limit) :
    v.toTree.toValue? limit = some v := by
  induction h generalizing limit with
  | null => rfl
  | bool b => rfl
  | number n hn => rfl
  | text s => rfl
  | array items hitems ih =>
    rw [depth] at hd
    have hlimit : limit ≠ 0 := by omega
    have hread : toItems? (limit - 1) (itemTrees items) = some items := by
      rw [itemTrees_eq_map, toItems?_eq_some_iff, List.forall₂_map_left_iff, List.forall₂_same]
      exact fun v hv => ih v hv (depthItems_le_iff.mp (by omega) v hv)
    rw [toTree, toValue?, if_neg hlimit, hread, Option.map_some]
  | object members hordered hmembers ih =>
    rw [depth] at hd
    have hlimit : limit ≠ 0 := by omega
    have hread : toMembers? (limit - 1) (memberTrees members) = some members := by
      rw [memberTrees_eq_map, toMembers?_eq_some_iff, List.forall₂_map_left_iff, List.forall₂_same]
      exact fun m hm => ⟨rfl, ih m hm (depthMembers_le_iff.mp (by omega) m hm)⟩
    rw [toTree, toValue?, if_neg hlimit, hread, Option.map_some, ofMembers_of_ordered hordered]

/-! ## What has a value -/

theorem exists_mem_of_forall₂ {α β : Type} {R : α → β → Prop} {as : List α} {bs : List β}
    (h : List.Forall₂ R as bs) {b : β} (hb : b ∈ bs) : ∃ a ∈ as, R a b := by
  induction h with
  | nil => exact absurd hb List.not_mem_nil
  | cons hab _ ih =>
    rcases List.mem_cons.mp hb with rfl | hb
    · exact ⟨_, List.mem_cons_self, hab⟩
    · obtain ⟨a, ha, hr⟩ := ih hb
      exact ⟨a, List.mem_cons_of_mem _ ha, hr⟩

theorem sound_of_toValue? (h : t.toValue? limit = some v)
    (hwords : ∀ n, .number (some n) ∈ t.tokens → IsWord n) : v.Sound ∧ v.depth ≤ limit := by
  induction t generalizing limit v with
  | null =>
    cases h
    exact ⟨.null, Nat.zero_le _⟩
  | bool b =>
    cases h
    exact ⟨.bool b, Nat.zero_le _⟩
  | number n =>
    obtain ⟨n, rfl, rfl⟩ := Option.map_eq_some_iff.mp h
    exact ⟨.number n (hwords n List.mem_cons_self), Nat.zero_le _⟩
  | text s =>
    obtain ⟨s, rfl, rfl⟩ := Option.map_eq_some_iff.mp h
    exact ⟨.text s, Nat.zero_le _⟩
  | array items ih =>
    rw [toValue?] at h
    split at h
    · cases h
    · obtain ⟨vs, hvs, rfl⟩ := Option.map_eq_some_iff.mp h
      have hall : ∀ v ∈ vs, v.Sound ∧ v.depth ≤ limit - 1 := by
        intro v hv
        obtain ⟨t, ht, hread⟩ := exists_mem_of_forall₂ (toItems?_eq_some_iff.mp hvs) hv
        refine ih t ht hread fun n hn => hwords n ?_
        simp [tokens, tokens_subset_itemTokens ht hn]
      refine ⟨.array vs fun v hv => (hall v hv).1, ?_⟩
      have := depthItems_le_iff.mpr fun v hv => (hall v hv).2
      rw [depth]
      omega
  | object members ih =>
    rw [toValue?] at h
    split at h
    · cases h
    · obtain ⟨vs, hvs, rfl⟩ := Option.map_eq_some_iff.mp h
      -- The sorted map may have fewer members than the text, but none of its own.
      obtain ⟨sorted, hsorted, hordered, hmem⟩ := exists_ofMembers vs
      have hall : ∀ m ∈ sorted, m.2.Sound ∧ m.2.depth ≤ limit - 1 := by
        intro m hm
        obtain ⟨t, ht, -, hread⟩ :=
          exists_mem_of_forall₂ (toMembers?_eq_some_iff.mp hvs) (hmem m hm)
        refine ih t ht hread fun n hn => hwords n ?_
        simp [tokens, tokens_subset_memberTokens ht hn]
      rw [hsorted]
      refine ⟨.object sorted hordered fun m hm => (hall m hm).1, ?_⟩
      have := depthMembers_le_iff.mpr fun m hm => (hall m hm).2
      rw [depth]
      omega

end Tree

end Outbox.Json
