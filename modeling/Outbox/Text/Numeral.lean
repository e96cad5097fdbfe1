import Outbox.Text.Split

/-! # Decimal numerals with a bound

`read bound` takes an optional leading `+` and decimal digits, at least one, for a number below
`bound`. Characters are examined from the left and the first problem is the one reported. Main
statements: `read_eq_ok_iff`, what is read as which number; `read_digits`, every number below the
bound is read back from its decimal digits. -/
namespace Outbox.Text.Numeral
set_option autoImplicit false

inductive Problem where
  | empty
  | badDigit
  | tooLarge
  deriving DecidableEq, Repr

def Problem.message : Problem → String
  | .empty => "cannot parse integer from empty string"
  | .badDigit => "invalid digit found in string"
  | .tooLarge => "number too large to fit in target type"

/-- The value of a decimal digit; other scripts' digits are none. -/
def digit? (c : Char) : Option Nat :=
  if '0' ≤ c ∧ c ≤ '9' then some (c.toNat - '0'.toNat) else none

/-- Reads on after the digits with value `acc`. -/
def readFrom (bound : Nat) (acc : Nat) : List Char → Except Problem Nat
  | [] => .ok acc
  | c :: r =>
    match digit? c with
    | none => .error .badDigit
    | some d => if 10 * acc + d < bound then readFrom bound (10 * acc + d) r else .error .tooLarge

/-- A sign counts only in front of something else. -/
def read (bound : Nat) : List Char → Except Problem Nat
  | [] => .error .empty
  | '+' :: c :: r => readFrom bound 0 (c :: r)
  | s => readFrom bound 0 s

def digits (n : Nat) : List Char := Nat.toDigits 10 n

theorem isDigit_of_mem_digits {n : Nat} {c : Char} (h : c ∈ digits n) : c.isDigit = true :=
  Nat.isDigit_of_mem_toDigits (by omega) (by omega) h

theorem digits_ne_nil (n : Nat) : digits n ≠ [] := Nat.toDigits_ne_nil

/-! ## What is read -/

/-- Decimal digits that count to `n`, at least one, with or without a sign in front of them. -/
def IsNumeral (n : Nat) (s : List Char) : Prop :=
  ∃ ds, (s = ds ∨ s = '+' :: ds) ∧ ds ≠ [] ∧ (∀ c ∈ ds, c.isDigit = true) ∧
    Nat.ofDigitChars 10 ds 0 = n

theorem IsNumeral.isDigit_or_eq {n : Nat} {s : List Char} (h : IsNumeral n s) {c : Char}
    (hc : c ∈ s) : c.isDigit = true ∨ c = '+' := by
  obtain ⟨ds, rfl | rfl, -, hall, -⟩ := h
  · exact .inl (hall c hc)
  · rcases List.mem_cons.mp hc with rfl | hc
    · exact .inr rfl
    · exact .inl (hall c hc)

theorem IsNumeral.not_blank {n : Nat} {s : List Char} (h : IsNumeral n s) {c : Char}
    (hc : c ∈ s) : isBlank c = false := by
  rcases h.isDigit_or_eq hc with hd | rfl
  · have hrange : 48 ≤ c.toNat ∧ c.toNat ≤ 57 := by
      simpa [Char.isDigit, UInt32.le_iff_toNat_le] using hd
    simp only [isBlank]
    grind
  · rfl

theorem digit?_of_isDigit {c : Char} (h : c.isDigit = true) :
    digit? c = some (c.toNat - '0'.toNat) := by
  have hc : '0' ≤ c ∧ c ≤ '9' := by
    simpa [Char.isDigit, Char.le_def] using h
  rw [digit?, if_pos hc]

theorem digit?_of_not_isDigit {c : Char} (h : ¬ c.isDigit = true) : digit? c = none := by
  have hc : ¬ ('0' ≤ c ∧ c ≤ '9') := by
    simpa [Char.isDigit, Char.le_def] using h
  rw [digit?, if_neg hc]

theorem le_ofDigitChars (s : List Char) (acc : Nat) : acc ≤ Nat.ofDigitChars 10 s acc := by
  induction s generalizing acc with
  | nil => exact Nat.le_refl _
  | cons c r ih =>
    rw [Nat.ofDigitChars_cons]
    exact Nat.le_trans (by omega) (ih _)

/-- No value on the way is above the last one, so the bound counts at the end only. -/
theorem readFrom_eq_ok_iff {bound acc n : Nat} {s : List Char} (hacc : acc < bound) :
    readFrom bound acc s = .ok n ↔
      (∀ c ∈ s, c.isDigit = true) ∧ Nat.ofDigitChars 10 s acc = n ∧ n < bound := by
  induction s generalizing acc with
  | nil =>
    simp only [readFrom, Except.ok.injEq, Nat.ofDigitChars_nil]
    grind
  | cons c r ih =>
    rw [readFrom, List.forall_mem_cons, Nat.ofDigitChars_cons]
    by_cases hc : c.isDigit = true
    · rw [digit?_of_isDigit hc]
      dsimp only
      split
      · rename_i hnext
        rw [ih hnext, and_assoc]
        exact (and_iff_right hc).symm
      · rename_i hnext
        have := le_ofDigitChars r (10 * acc + (c.toNat - '0'.toNat))
        simp only [reduceCtorEq, false_iff]
        rintro ⟨-, rfl, hn⟩
        omega
    · rw [digit?_of_not_isDigit hc]
      simp [hc]

theorem read_eq_ok_iff {bound n : Nat} {s : List Char} (hb : 0 < bound) :
    read bound s = .ok n ↔ IsNumeral n s ∧ n < bound := by
  have hplus : ¬ '+'.isDigit = true := by decide
  unfold read
  split
  · simp only [reduceCtorEq, false_iff]
    rintro ⟨⟨ds, rfl | hs, hne, -⟩, -⟩
    · exact hne rfl
    · cases hs
  · rename_i c r
    rw [readFrom_eq_ok_iff hb]
    constructor
    · rintro ⟨hall, hn, hlt⟩
      exact ⟨⟨c :: r, .inr rfl, List.cons_ne_nil c r, hall, hn⟩, hlt⟩
    · rintro ⟨⟨ds, rfl | hs, -, hall, hn⟩, hlt⟩
      · exact absurd (hall '+' List.mem_cons_self) hplus
      · exact (List.cons.inj hs).2 ▸ ⟨hall, hn, hlt⟩
  · rename_i hne hsign
    rw [readFrom_eq_ok_iff hb]
    constructor
    · rintro ⟨hall, hn, hlt⟩
      exact ⟨⟨s, .inl rfl, hne, hall, hn⟩, hlt⟩
    · rintro ⟨⟨ds, rfl | rfl, hds, hall, hn⟩, hlt⟩
      · exact ⟨hall, hn, hlt⟩
      · obtain ⟨c, r, rfl⟩ := List.exists_cons_of_ne_nil hds
        exact absurd rfl (hsign c r)

/-! ## Reading back -/

theorem isNumeral_digits (n : Nat) : IsNumeral n (digits n) :=
  ⟨digits n, .inl rfl, digits_ne_nil n, fun _ => isDigit_of_mem_digits,
    Nat.ofDigitChars_toDigits (by omega) (by omega)⟩

theorem read_digits {bound n : Nat} (h : n < bound) : read bound (digits n) = .ok n :=
  (read_eq_ok_iff (Nat.zero_lt_of_lt h)).mpr ⟨isNumeral_digits n, h⟩

end Outbox.Text.Numeral
