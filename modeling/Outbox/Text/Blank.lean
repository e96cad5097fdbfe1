/-! # Blank characters and trimming

`isBlank` holds on the characters with the White_Space property, and on no others: the zero width
space and the byte order mark are not blank. Texts are lists of characters here; `trim` drops the
blanks at both ends (`Padded.trim_eq`) and nothing else (`trim_eq_self`). -/
namespace Outbox.Text
set_option autoImplicit false

/-- The White_Space property. -/
def isBlank (c : Char) : Bool :=
  let n := c.toNat
  (9 ≤ n && n ≤ 13) || n == 32 || n == 0x85 || n == 0xA0 || n == 0x1680 ||
    (0x2000 ≤ n && n ≤ 0x200A) || n == 0x2028 || n == 0x2029 || n == 0x202F || n == 0x205F ||
    n == 0x3000

/-- Drops the longest end all of whose characters satisfy `p`. -/
def dropEnd (p : Char → Bool) (s : List Char) : List Char :=
  (s.reverse.dropWhile p).reverse

def trim (s : List Char) : List Char :=
  dropEnd isBlank (s.dropWhile isBlank)

/-- Holds of the texts that `trim` leaves empty. -/
def AllBlank (s : List Char) : Prop := ∀ c ∈ s, isBlank c = true

instance (s : List Char) : Decidable (AllBlank s) :=
  inferInstanceAs (Decidable (∀ c ∈ s, isBlank c = true))

/-! ## Ends -/

@[simp] theorem dropEnd_nil (p : Char → Bool) : dropEnd p [] = [] := rfl

theorem dropEnd_append_of_all {p : Char → Bool} (s t : List Char) (ht : ∀ c ∈ t, p c = true) :
    dropEnd p (s ++ t) = dropEnd p s := by
  unfold dropEnd
  rw [List.reverse_append, List.dropWhile_append_of_pos (by simpa using ht)]

/-- A text whose last character is kept loses nothing at its end. -/
theorem dropEnd_concat_of_not {p : Char → Bool} (s : List Char) {c : Char} (hc : p c = false) :
    dropEnd p (s ++ [c]) = s ++ [c] := by
  simp [dropEnd, hc]

theorem dropEnd_eq_self {p : Char → Bool} {s : List Char} (h : ∀ c ∈ s.getLast?, p c = false) :
    dropEnd p s = s := by
  rcases List.eq_nil_or_concat s with rfl | ⟨r, c, rfl⟩
  · rfl
  · rw [List.concat_eq_append] at h ⊢
    exact dropEnd_concat_of_not r (h c (by simp))

theorem getLast?_dropEnd {p : Char → Bool} (s : List Char) :
    ∀ c ∈ (dropEnd p s).getLast?, p c = false := by
  intro c hc
  rw [dropEnd, List.getLast?_reverse] at hc
  have := List.head?_dropWhile_not p s.reverse
  rw [Option.mem_def.mp hc] at this
  exact this

theorem exists_dropEnd (p : Char → Bool) (s : List Char) :
    ∃ b, (∀ c ∈ b, p c = true) ∧ s = dropEnd p s ++ b := by
  refine ⟨(s.reverse.takeWhile p).reverse, fun c hc => ?_, ?_⟩
  · exact List.all_eq_true.mp List.all_takeWhile c (List.mem_reverse.mp hc)
  · rw [dropEnd, ← List.reverse_append, List.takeWhile_append_dropWhile, List.reverse_reverse]

/-- An end that goes altogether, behind a text that loses nothing. -/
theorem dropEnd_append {p : Char → Bool} {s t : List Char} (hs : ∀ c ∈ s.getLast?, p c = false)
    (ht : ∀ c ∈ t, p c = true) : dropEnd p (s ++ t) = s :=
  (dropEnd_append_of_all s t ht).trans (dropEnd_eq_self hs)

/-! ## Blanks around a text -/

theorem allBlank_of_all {s : List Char} (h : s.all isBlank = true) : AllBlank s :=
  List.all_eq_true.mp h

theorem AllBlank.dropWhile {s : List Char} (h : AllBlank s) : s.dropWhile isBlank = [] := by
  have hall : (s ++ []).dropWhile isBlank = [].dropWhile isBlank := List.dropWhile_append_of_pos h
  rwa [List.append_nil, List.dropWhile_nil] at hall

/-- The text `s` between blanks. -/
def Padded (s t : List Char) : Prop := ∃ a b, AllBlank a ∧ AllBlank b ∧ t = a ++ s ++ b

theorem padded_self (s : List Char) : Padded s s :=
  ⟨[], [], List.forall_mem_nil _, List.forall_mem_nil _, by simp⟩

/-- Blanks at the ends make no difference. -/
theorem Padded.trim_eq {s t : List Char} (h : Padded s t) : trim t = trim s := by
  obtain ⟨a, b, ha, hb, rfl⟩ := h
  unfold trim
  rw [List.append_assoc, List.dropWhile_append_of_pos ha, List.dropWhile_append]
  split
  · rename_i hs
    rw [hb.dropWhile, List.isEmpty_iff.mp hs]
  · exact dropEnd_append_of_all _ _ hb

theorem padded_trim (s : List Char) : Padded (trim s) s := by
  obtain ⟨b, hb, hr⟩ := exists_dropEnd isBlank (s.dropWhile isBlank)
  refine ⟨s.takeWhile isBlank, b, fun c => List.all_eq_true.mp List.all_takeWhile c, hb, ?_⟩
  rw [trim, List.append_assoc, ← hr, List.takeWhile_append_dropWhile]

theorem Padded.trans {r s t : List Char} (h : Padded r s) (h' : Padded s t) : Padded r t := by
  obtain ⟨a, b, ha, hb, rfl⟩ := h
  obtain ⟨a', b', ha', hb', rfl⟩ := h'
  refine ⟨a' ++ a, b ++ b', ?_, ?_, by simp only [List.append_assoc]⟩
  · exact fun c hc => (List.mem_append.mp hc).elim (ha' c) (ha c)
  · exact fun c hc => (List.mem_append.mp hc).elim (hb c) (hb' c)

theorem AllBlank.not_mem {s : List Char} {c : Char} (h : AllBlank s) (hc : isBlank c = false) :
    c ∉ s := fun hm => Bool.eq_false_iff.mp hc (h c hm)

theorem Padded.not_mem {s t : List Char} {c : Char} (h : Padded s t) (hc : isBlank c = false)
    (hs : c ∉ s) : c ∉ t := by
  obtain ⟨a, b, ha, hb, rfl⟩ := h
  simp [ha.not_mem hc, hb.not_mem hc, hs]

theorem trim_eq_nil_iff {s : List Char} : trim s = [] ↔ AllBlank s := by
  constructor
  · intro h
    obtain ⟨a, b, ha, hb, hs⟩ := padded_trim s
    rw [h, List.append_nil] at hs
    intro c hc
    rw [hs] at hc
    exact (List.mem_append.mp hc).elim (ha c) (hb c)
  · intro h
    rw [trim, h.dropWhile, dropEnd_nil]

/-- A text with a blank at neither end stays as it is. -/
theorem trim_eq_self {s : List Char} (hhead : ∀ c ∈ s.head?, isBlank c = false)
    (hlast : ∀ c ∈ s.getLast?, isBlank c = false) : trim s = s := by
  have hfront : s.dropWhile isBlank = s := by
    cases s with
    | nil => rfl
    | cons c r => exact List.dropWhile_cons_of_neg (Bool.eq_false_iff.mp (hhead c rfl))
  rw [trim, hfront, dropEnd_eq_self hlast]

theorem trim_eq_self_of_forall {s : List Char} (h : ∀ c ∈ s, isBlank c = false) : trim s = s :=
  trim_eq_self (fun c hc => h c (List.mem_of_head? hc)) fun c hc => h c (List.mem_of_getLast? hc)

end Outbox.Text
