import Outbox.Text.Blank

/-! # Cutting a text at its separators

`cutAt?` cuts around the first occurrence of a word, `cutAtLast?` around the last occurrence of a
character, `fields` at every occurrence of a character. Each of them gives the text back when the
separators are put in again (`cutAt?_eq_some`, `cutAtLast?_eq_some`, `joined_fields`). That a cut is
the first one is `cutAt?_eq_some_iff`; what is put behind a text moves no cut in it. -/
namespace Outbox.Text
set_option autoImplicit false

/-- The texts before and after the first occurrence of `sep`. -/
def cutAt? (sep : List Char) : List Char → Option (List Char × List Char)
  | [] => if sep.isEmpty then some ([], []) else none
  | c :: r =>
    if sep.isPrefixOf (c :: r) then some ([], (c :: r).drop sep.length)
    else (cutAt? sep r).map fun (a, b) => (c :: a, b)

/-- The texts before and after the last occurrence of `c`. -/
def cutAtLast? (c : Char) (s : List Char) : Option (List Char × List Char) :=
  match s.reverse.dropWhile (· != c) with
  | [] => none
  | _ :: a => some (a.reverse, (s.reverse.takeWhile (· != c)).reverse)

/-- What follows the last `c`, or all of the text when there is none. -/
def afterLast (c : Char) (s : List Char) : List Char :=
  (s.reverse.takeWhile (· != c)).reverse

/-- The pieces between the separators; `n` separators give `n + 1` pieces. -/
def fields (c : Char) : List Char → List (List Char)
  | [] => [[]]
  | d :: r =>
    if d = c then [] :: fields c r
    else match fields c r with
      | [] => [[d]]
      | f :: fs => (d :: f) :: fs

/-- The pieces with one `c` between any two of them. -/
def joined (c : Char) : List (List Char) → List Char
  | [] => []
  | [f] => f
  | f :: fs => f ++ c :: joined c fs

theorem cutAt?_eq_some {sep s a b : List Char} (h : cutAt? sep s = some (a, b)) :
    s = a ++ sep ++ b := by
  induction s generalizing a with
  | nil =>
    unfold cutAt? at h
    split at h
    · simp_all
    · simp at h
  | cons c r ih =>
    unfold cutAt? at h
    split at h
    · rename_i hp
      obtain ⟨rfl, rfl⟩ := by simpa using h
      obtain ⟨t, ht⟩ := List.isPrefixOf_iff_prefix.1 hp
      rw [← ht]
      simp
    · obtain ⟨⟨a', b'⟩, hr, he⟩ := Option.map_eq_some_iff.1 h
      obtain ⟨rfl, rfl⟩ := by simpa using he
      simp [ih hr]

/-! ## The first occurrence of a word -/

/-- `a` and `b` stand before and after the first `sep` in `s`. -/
structure FirstCut (sep s a b : List Char) : Prop where
  eq : s = a ++ sep ++ b
  first : ∀ a' b', s = a' ++ sep ++ b' → a.length ≤ a'.length

theorem cutAt?_eq_none_iff {sep s : List Char} : cutAt? sep s = none ↔ ¬ sep <:+: s := by
  induction s with
  | nil =>
    unfold cutAt?
    split <;> simp_all
  | cons c r ih =>
    unfold cutAt?
    rw [List.infix_cons_iff, not_or, ← List.isPrefixOf_iff_prefix]
    split
    · rename_i hp
      simp [hp]
    · rename_i hp
      rw [Option.map_eq_none_iff, ih]
      exact (and_iff_right hp).symm

theorem length_le_of_cutAt? {sep s a b a' b' : List Char} (h : cutAt? sep s = some (a, b))
    (hs : s = a' ++ sep ++ b') : a.length ≤ a'.length := by
  induction s generalizing a a' b with
  | nil =>
    obtain ⟨ha, -⟩ := List.append_eq_nil_iff.mp (cutAt?_eq_some h).symm
    simp [(List.append_eq_nil_iff.mp ha).1]
  | cons c r ih =>
    unfold cutAt? at h
    split at h
    · obtain ⟨rfl, -⟩ := by simpa using h
      exact Nat.zero_le _
    · rename_i hp
      obtain ⟨⟨a₁, b₁⟩, hr, he⟩ := Option.map_eq_some_iff.mp h
      obtain ⟨rfl, -⟩ := by simpa using he
      cases a' with
      | nil => exact absurd (List.isPrefixOf_iff_prefix.mpr ⟨b', hs.symm⟩) hp
      | cons d a₂ => exact Nat.succ_le_succ (ih hr (List.cons.inj hs).2)

theorem cutAt?_eq_some_iff {sep s a b : List Char} :
    cutAt? sep s = some (a, b) ↔ FirstCut sep s a b := by
  refine ⟨fun h => ⟨cutAt?_eq_some h, fun a' b' => length_le_of_cutAt? h⟩, fun h => ?_⟩
  cases hc : cutAt? sep s with
  | none => exact absurd ⟨a, b, h.eq.symm⟩ (cutAt?_eq_none_iff.mp hc)
  | some p =>
    obtain ⟨a', b'⟩ := p
    have hlen : a'.length = a.length :=
      Nat.le_antisymm (length_le_of_cutAt? hc h.eq) (h.first a' b' (cutAt?_eq_some hc))
    have heq := (cutAt?_eq_some hc).symm.trans h.eq
    rw [List.append_assoc, List.append_assoc] at heq
    obtain ⟨rfl, hrest⟩ := List.append_inj heq hlen
    rw [List.append_cancel_left hrest]

/-- What stands behind the first occurrence does not move it. -/
theorem FirstCut.append {sep s a b : List Char} (h : FirstCut sep s a b) (t : List Char) :
    FirstCut sep (s ++ t) a (b ++ t) := by
  refine ⟨by rw [h.eq, List.append_assoc], fun a' b' hs => ?_⟩
  refine Nat.le_of_not_lt fun hlt => ?_
  -- An occurrence that begins earlier also ends earlier, so it lies in `s`.
  have hlen : (a' ++ sep).length ≤ s.length := by
    rw [h.eq]
    simp only [List.length_append]
    omega
  obtain ⟨b₁, hb⟩ := List.prefix_of_prefix_length_le ⟨b', hs.symm⟩ (List.prefix_append s t) hlen
  exact Nat.not_le_of_lt hlt (h.first a' b₁ hb.symm)

/-- No occurrence reaches over a character that is not in the word. -/
theorem eq_append_of_occurrence {sep s t a b : List Char} {c : Char} (hc : c ∉ sep)
    (hs : ¬ sep <:+: s) (h : s ++ c :: t = a ++ sep ++ b) :
    ∃ a', a = s ++ a' ∧ c :: t = a' ++ sep ++ b := by
  rw [List.append_assoc] at h
  rcases List.append_eq_append_iff.mp h with ⟨a', ha, ht⟩ | ⟨z, hz, hsep⟩
  · exact ⟨a', ha, by rw [ht, List.append_assoc]⟩
  · rcases List.append_eq_append_iff.mp hsep with ⟨w, rfl, -⟩ | ⟨w, rfl, hw⟩
    · exact absurd ⟨a, w, by rw [hz, List.append_assoc]⟩ hs
    · cases w with
      | nil => exact absurd ⟨a, [], by simp [hz]⟩ hs
      | cons d w =>
        obtain rfl := (List.cons.inj hw).1
        simp at hc

theorem not_infix_append_cons {sep s t : List Char} {c : Char} (hc : c ∉ sep)
    (hs : ¬ sep <:+: s) (ht : ¬ sep <:+: c :: t) : ¬ sep <:+: s ++ c :: t := by
  rintro ⟨a, b, h⟩
  obtain ⟨a', -, heq⟩ := eq_append_of_occurrence hc hs h.symm
  exact ht ⟨a', b, heq.symm⟩

theorem FirstCut.behind {sep s t a b : List Char} {c : Char} (hc : c ∉ sep)
    (hs : ¬ sep <:+: s) (h : FirstCut sep (c :: t) a b) :
    FirstCut sep (s ++ c :: t) (s ++ a) b := by
  refine ⟨by rw [h.eq]; simp only [List.append_assoc], fun a₁ b₁ heq => ?_⟩
  obtain ⟨a', rfl, ht⟩ := eq_append_of_occurrence hc hs heq
  simpa using h.first a' b₁ ht

/-! ## The occurrences of a character -/

theorem bne_of_mem_reverse {c : Char} {t : List Char} (ht : c ∉ t) :
    ∀ x ∈ t.reverse, (x != c) = true := by
  intro x hx
  simp only [bne_iff_ne, ne_eq]
  rintro rfl
  exact ht (List.mem_reverse.mp hx)

theorem afterLast_append_cons {c : Char} (s t : List Char) (ht : c ∉ t) :
    afterLast c (s ++ c :: t) = t := by
  unfold afterLast
  rw [List.reverse_append, List.reverse_cons, List.append_assoc,
    List.takeWhile_append_of_pos (bne_of_mem_reverse ht)]
  simp

theorem cutAtLast?_append_cons {c : Char} (s t : List Char) (ht : c ∉ t) :
    cutAtLast? c (s ++ c :: t) = some (s, t) := by
  have hd : (s ++ c :: t).reverse.dropWhile (· != c) = c :: s.reverse := by
    rw [List.reverse_append, List.reverse_cons, List.append_assoc,
      List.dropWhile_append_of_pos (bne_of_mem_reverse ht)]
    simp
  have hl := afterLast_append_cons s t ht
  unfold afterLast at hl
  simp only [cutAtLast?, hd, hl, List.reverse_reverse]

theorem cutAtLast?_eq_some {c : Char} {s a b : List Char} (h : cutAtLast? c s = some (a, b)) :
    s = a ++ c :: b ∧ c ∉ b := by
  unfold cutAtLast? at h
  split at h
  · simp at h
  · rename_i d a' hd
    obtain ⟨rfl, rfl⟩ := by simpa using h
    have hdc : d = c := by
      have := List.head?_dropWhile_not (· != c) s.reverse
      rw [hd] at this
      simpa using this
    have hs := List.takeWhile_append_dropWhile (p := (· != c)) (l := s.reverse)
    rw [hd, hdc] at hs
    refine ⟨?_, ?_⟩
    · have := congrArg List.reverse hs
      simpa using this.symm
    · intro hc
      have := List.all_eq_true.1 (List.all_takeWhile (p := (· != c)) (l := s.reverse)) c
        (List.mem_reverse.1 hc)
      simp at this

theorem cutAtLast?_eq_none_iff {c : Char} {s : List Char} : cutAtLast? c s = none ↔ c ∉ s := by
  constructor
  · intro h hc
    obtain ⟨b, a, hs, hb⟩ := List.eq_append_cons_of_mem (List.mem_reverse.mpr hc)
    have hlast : s = a.reverse ++ c :: b.reverse := by
      rw [← List.reverse_reverse s, hs]
      simp
    rw [hlast, cutAtLast?_append_cons _ _ (mt List.mem_reverse.mp hb)] at h
    cases h
  · intro h
    cases hcut : cutAtLast? c s with
    | none => rfl
    | some p =>
      refine absurd ?_ h
      rw [(cutAtLast?_eq_some hcut).1]
      simp

theorem fields_ne_nil (c : Char) (s : List Char) : fields c s ≠ [] := by
  cases s with
  | nil => simp [fields]
  | cons d r =>
    unfold fields
    split
    · simp
    · split <;> simp

theorem joined_cons_of_ne_nil {c : Char} {fs : List (List Char)} (f : List Char) (h : fs ≠ []) :
    joined c (f :: fs) = f ++ c :: joined c fs := by
  obtain ⟨g, gs, rfl⟩ := List.exists_cons_of_ne_nil h
  rfl

theorem joined_fields (c : Char) (s : List Char) : joined c (fields c s) = s := by
  induction s with
  | nil => rfl
  | cons d r ih =>
    unfold fields
    have hne := fields_ne_nil c r
    split
    · rename_i hdc
      subst hdc
      cases hf : fields d r with
      | nil => exact absurd hf hne
      | cons f fs =>
        rw [hf] at ih
        simp [joined, ih]
    · split
      · rename_i hf
        exact absurd hf hne
      · rename_i f fs hf
        rw [hf] at ih
        cases fs with
        | nil => simpa [joined] using ih
        | cons g gs => simpa [joined] using ih

theorem fields_append_cons {c : Char} {f : List Char} (s : List Char) (h : c ∉ f) :
    fields c (f ++ c :: s) = f :: fields c s := by
  induction f with
  | nil => simp [fields]
  | cons d r ih =>
    obtain ⟨hd, hr⟩ : ¬ c = d ∧ c ∉ r := by simpa using h
    rw [List.cons_append, fields, if_neg (Ne.symm hd), ih hr]

theorem fields_eq_singleton {c : Char} {f : List Char} (h : c ∉ f) : fields c f = [f] := by
  induction f with
  | nil => rfl
  | cons d r ih =>
    obtain ⟨hd, hr⟩ : ¬ c = d ∧ c ∉ r := by simpa using h
    rw [fields, if_neg (Ne.symm hd), ih hr]

theorem fields_joined {c : Char} {fs : List (List Char)} (hne : fs ≠ [])
    (h : ∀ f ∈ fs, c ∉ f) : fields c (joined c fs) = fs := by
  induction fs with
  | nil => exact absurd rfl hne
  | cons f r ih =>
    have hf := h f (by simp)
    cases r with
    | nil => exact fields_eq_singleton hf
    | cons g r' =>
      rw [joined, fields_append_cons _ hf, ih (by simp) fun x hx => h x (by simp [hx])]
      simp

end Outbox.Text
