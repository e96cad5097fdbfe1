import Mathlib.Data.List.TakeWhile
import Outbox.Proofs.Wire.Values

/-! # Texts and their tokens

Tokens may be laid out in many ways, with any spaces between them. Each such text is cut into the
tokens again: an escape gives back its character, and a numeral ends where no character of a number
follows. The compact text of a value is a layout of the tokens of its tree. In the other direction
a number that is scanned anywhere is a word. Main statements: `scan?_of_laid`, `laid_chars` and
`isWord_of_scan?`. -/
namespace Outbox.Json
set_option autoImplicit false

namespace Token
open Value (escaped textChars numberChars IsWord isWord_iff)

variable {c : Char} {s r : List Char} {t : Token} {ts : List Token}

/-! ## Escapes -/

theorem hexDigit?_digitChar {n : Nat} (h : n < 16) : hexDigit? (Nat.digitChar n) = some n := by
  revert n
  decide

/-- The escape with a code gives back a control character. -/
theorem ofUnit_toNat (h : c.toNat < 0x20) : Piece.ofUnit c.toNat = .char c := by
  have hhigh : isHigh c.toNat = false := by simp [isHigh]; omega
  have hlow : isLow c.toNat = false := by simp [isLow]; omega
  rw [Piece.ofUnit, hhigh, hlow, Char.ofNat_toNat]
  rfl

/-- What is scanned when a character stands before the rest. -/
def before (c : Char) (p : List Piece × List Char) : List Piece × List Char :=
  (.char c :: p.1, p.2)

theorem scanText_letter {e : Char} (he : e ≠ 'u') (h : letter? e = some c) (r : List Char) :
    scanText ('\\' :: e :: r) = (scanText r).map (before c) := by
  rw [scanText, h]
  · cases scanText r <;> simp [before]
  · exact fun _ _ _ _ _ hu _ => he hu

theorem scanText_code (h : c.toNat < 0x20) (r : List Char) :
    scanText ('\\' :: 'u' :: '0' :: '0' :: Nat.digitChar (c.toNat / 16) ::
      Nat.digitChar (c.toNat % 16) :: r) = (scanText r).map (before c) := by
  have hunit : unit? '0' '0' (Nat.digitChar (c.toNat / 16)) (Nat.digitChar (c.toNat % 16)) =
      some c.toNat := by
    have hzero : hexDigit? '0' = some 0 := rfl
    simp only [unit?, hzero, hexDigit?_digitChar (show c.toNat / 16 < 16 by omega),
      hexDigit?_digitChar (show c.toNat % 16 < 16 by omega)]
    exact congrArg some (by omega)
  rw [scanText, hunit]
  cases scanText r <;> simp [before, ofUnit_toNat h]

theorem scanText_raw (hquote : c ≠ '"') (hslash : c ≠ '\\') (h : ¬ c.toNat < 0x20)
    (r : List Char) : scanText (c :: r) = (scanText r).map (before c) := by
  rw [scanText, if_neg (by simp [h, hslash])]
  · rfl
  · exact hquote
  · exact fun _ _ _ _ _ hc _ => hslash hc
  · exact fun _ _ hc _ => hslash hc

/-- One character of a text, however it is escaped. -/
theorem scanText_escaped (c : Char) (r : List Char) :
    scanText (escaped c ++ r) = (scanText r).map (before c) := by
  unfold escaped
  split
  case h_8 hquote hslash _ _ _ _ _ =>
    split
    · rename_i h
      exact scanText_code h r
    · rename_i h
      exact scanText_raw hquote hslash h r
  all_goals exact scanText_letter (by decide) rfl r

theorem scanText_flatMap (s r : List Char) :
    scanText (s.flatMap escaped ++ '"' :: r) = some (s.map .char, r) := by
  induction s with
  | nil => rfl
  | cons c s ih =>
    rw [List.flatMap_cons, List.append_assoc, scanText_escaped, ih]
    rfl

theorem joinPieces_map_char (s : List Char) : joinPieces (s.map .char) = some s := by
  induction s with
  | nil => rfl
  | cons c s ih => rw [List.map_cons, joinPieces, ih]; rfl

theorem scanOne?_textChars (s r : List Char) :
    scanOne? (textChars s ++ r) = some (.text (some (String.ofList s)), r) := by
  have htext : textChars s ++ r = '"' :: (s.flatMap escaped ++ '"' :: r) := by
    simp [textChars]
  rw [htext]
  simp [scanOne?, scanText_flatMap, joinPieces_map_char]

/-! ## Numerals -/

theorem isNumberChar_of_isDigit (h : c.isDigit = true) : isNumberChar c = true := by
  simp [isNumberChar, h]

theorem isDigit_of_mem_decimal {n : Nat} (h : c ∈ Nat.toDigits 10 n) : c.isDigit = true :=
  Nat.isDigit_of_mem_toDigits (by decide) (by decide) h

/-- Only zero is written with a zero in front. -/
theorem eq_zero_of_toDigits {n : Nat} (h : Nat.toDigits 10 n = '0' :: r) : n = 0 := by
  induction n using Nat.strongRecOn generalizing r with
  | _ n ih =>
    rcases Nat.lt_or_ge n 10 with hn | hn
    · rw [Nat.toDigits_of_lt_base hn] at h
      have hzero : ∀ m < 10, Nat.digitChar m = '0' → m = 0 := by decide
      exact hzero n hn (List.cons.inj h).1
    · rw [Nat.toDigits_of_base_le (by decide) hn] at h
      obtain ⟨c, s, hs⟩ := List.exists_cons_of_ne_nil (Nat.toDigits_ne_nil (b := 10) (n := n / 10))
      rw [hs] at h
      -- The first digit of `n` is that of `n / 10`, which is not zero.
      have := ih (n / 10) (by omega) (hs.trans (congrArg (· :: s) (List.cons.inj h).1))
      omega

theorem isInteger_toDigits (n : Nat) : isInteger (Nat.toDigits 10 n) = true := by
  unfold isInteger
  split
  · rfl
  · rename_i s hs heq
    obtain rfl := eq_zero_of_toDigits heq
    exact absurd (List.cons.inj heq).2.symm hs
  · simp only [isDigits, Bool.and_eq_true, Bool.not_eq_true', List.isEmpty_eq_false_iff,
      List.all_eq_true]
    exact ⟨Nat.toDigits_ne_nil, fun _ => isDigit_of_mem_decimal⟩

theorem takeWhile_toDigits (n : Nat) :
    (Nat.toDigits 10 n).takeWhile Char.isDigit = Nat.toDigits 10 n ∧
      (Nat.toDigits 10 n).dropWhile Char.isDigit = [] := by
  have hall : ∀ c ∈ Nat.toDigits 10 n, c.isDigit = true := fun _ => isDigit_of_mem_decimal
  exact ⟨List.takeWhile_eq_self_iff.mpr hall, List.dropWhile_eq_nil_iff.mpr hall⟩

theorem number?_toDigits (n : Nat) :
    number? (Nat.toDigits 10 n) = some (.number (integer? false (Nat.toDigits 10 n))) := by
  have hsign : ((Nat.toDigits 10 n).head? == some '-') = false := by
    obtain ⟨c, r, hr⟩ := List.exists_cons_of_ne_nil (Nat.toDigits_ne_nil (b := 10) (n := n))
    have hc : c.isDigit = true := isDigit_of_mem_decimal (hr ▸ List.mem_cons_self)
    rw [hr]
    refine beq_eq_false_iff_ne.mpr ?_
    rintro ⟨⟩
    exact absurd hc (by decide)
  obtain ⟨htake, hdrop⟩ := takeWhile_toDigits n
  simp [number?, hsign, htake, hdrop, isInteger_toDigits, isTail]

theorem number?_neg (n : Nat) :
    number? ('-' :: Nat.toDigits 10 n) =
      some (.number (integer? true (Nat.toDigits 10 n))) := by
  obtain ⟨htake, hdrop⟩ := takeWhile_toDigits n
  simp [number?, htake, hdrop, isInteger_toDigits, isTail]

theorem number?_numberChars {n : Int} (h : IsWord n) :
    number? (numberChars n) = some (.number (some n)) := by
  obtain ⟨hlow, hhigh⟩ := isWord_iff.mp h
  cases n with
  | ofNat m =>
    have hm : m < UInt64.size := by
      rw [Int.ofNat_eq_natCast] at hhigh
      simp only [UInt64.size]
      omega
    rw [numberChars, number?_toDigits, integer?, Nat.ofDigitChars_ten_toDigits]
    simp [hm]
  | negSucc m =>
    have hm : m + 1 ≤ UInt64.size / 2 := by
      simp only [UInt64.size]
      omega
    rw [numberChars, number?_neg, integer?, Nat.ofDigitChars_ten_toDigits]
    simp [hm, Int.negSucc_eq]

/-- What may follow a numeral. -/
def Ends (r : List Char) : Prop := ∀ c ∈ r.head?, isNumberChar c = false

theorem ends_nil : Ends [] := nofun

theorem ends_cons (h : isNumberChar c = false) (r : List Char) : Ends (c :: r) := by
  rintro x ⟨⟩
  exact h

theorem scanOne?_of_isNumberChar (h : isNumberChar c = true) (r : List Char) :
    scanOne? (c :: r) = (number? (c :: r.takeWhile isNumberChar)).map
      fun t => (t, r.dropWhile isNumberChar) := by
  rw [scanOne?, if_pos h]
  all_goals
    intros
    subst c
    simp [isNumberChar] at h

theorem takeWhile_append_of_ends (hs : ∀ c ∈ s, isNumberChar c = true) (hr : Ends r) :
    (s ++ r).takeWhile isNumberChar = s ∧ (s ++ r).dropWhile isNumberChar = r := by
  have hnone : r.takeWhile isNumberChar = [] ∧ r.dropWhile isNumberChar = r := by
    cases r with
    | nil => exact ⟨rfl, rfl⟩
    | cons c r => simp [hr c rfl]
  rw [List.takeWhile_append_of_pos hs, List.dropWhile_append_of_pos hs, hnone.1, hnone.2]
  exact ⟨List.append_nil s, rfl⟩

theorem isNumberChar_of_mem_numberChars {n : Int} (h : c ∈ numberChars n) :
    isNumberChar c = true := by
  have hdigits : ∀ m, c ∈ Nat.toDigits 10 m → isNumberChar c = true := fun m hc =>
    isNumberChar_of_isDigit (isDigit_of_mem_decimal hc)
  cases n with
  | ofNat m => exact hdigits m h
  | negSucc m =>
    rcases List.mem_cons.mp h with rfl | h
    · rfl
    · exact hdigits _ h

theorem scanOne?_numberChars {n : Int} (h : IsWord n) (hr : Ends r) :
    scanOne? (numberChars n ++ r) = some (.number (some n), r) := by
  have hne : numberChars n ≠ [] := by
    cases n with
    | ofNat m => exact Nat.toDigits_ne_nil
    | negSucc m => exact List.cons_ne_nil _ _
  have hnumber := number?_numberChars h
  have hall : ∀ c ∈ numberChars n, isNumberChar c = true := fun _ => isNumberChar_of_mem_numberChars
  obtain ⟨c, s, hs⟩ := List.exists_cons_of_ne_nil hne
  rw [hs] at hnumber hall ⊢
  obtain ⟨hc, hrest⟩ := List.forall_mem_cons.mp hall
  obtain ⟨htake, hdrop⟩ := takeWhile_append_of_ends hrest hr
  rw [List.cons_append, scanOne?_of_isNumberChar hc, htake, hdrop, hnumber]
  rfl

/-! ## Layouts -/

/-- How a token is written; a number or a text without a value is not written at all. -/
inductive Spelled : Token → List Char → Prop
  | openObject : Spelled .openObject ['\x7b']
  | closeObject : Spelled .closeObject ['\x7d']
  | openArray : Spelled .openArray ['[']
  | closeArray : Spelled .closeArray [']']
  | colon : Spelled .colon [':']
  | comma : Spelled .comma [',']
  | null : Spelled .null "null".toList
  | true : Spelled (.bool true) "true".toList
  | false : Spelled (.bool false) "false".toList
  | number (n : Int) (hn : IsWord n) : Spelled (.number (some n)) (numberChars n)
  | text (k : String) : Spelled (.text (some k)) (textChars k.toList)

/-- Tokens one after the other, with any spaces between them and at the ends; what is behind a
numeral does not go on with it. -/
inductive Laid : List Token → List Char → Prop
  | nil : Laid [] []
  | space {ts : List Token} {s : List Char} (c : Char) (hc : isSpace c = true) (hs : Laid ts s) :
    Laid ts (c :: s)
  | token {t : Token} {w : List Char} {ts : List Token} {s : List Char} (hw : Spelled t w)
    (hends : ∀ n, t = .number n → Ends s) (hs : Laid ts s) : Laid (t :: ts) (w ++ s)

theorem scanOne?_of_spelled {w : List Char} (h : Spelled t w) (hr : ∀ n, t = .number n → Ends r) :
    scanOne? (w ++ r) = some (t, r) := by
  cases h with
  | number n hn => exact scanOne?_numberChars hn (hr n rfl)
  | text k => rw [scanOne?_textChars, String.ofList_toList]
  | _ => rfl

theorem scanOne?_of_isSpace (h : isSpace c = true) (s : List Char) :
    scanOne? (c :: s) = none := by
  simp only [isSpace, Bool.or_eq_true, beq_iff_eq] at h
  rcases h with ((rfl | rfl) | rfl) | rfl <;> rfl

theorem scan?_of_scanOne? (h : scanOne? s = some (t, r)) : scan? s = (scan? r).map (t :: ·) := by
  cases s with
  | nil => cases h
  | cons c s =>
    have hspace : ¬ isSpace c = true := by
      intro hc
      rw [scanOne?_of_isSpace hc] at h
      cases h
    rw [scan?, if_neg hspace]
    split
    · rename_i hnone
      rw [h] at hnone
      cases hnone
    · rename_i t' r' hsome
      cases h.symm.trans hsome
      rfl

theorem scan?_of_laid (h : Laid ts s) : scan? s = some ts := by
  induction h with
  | nil => rw [scan?]
  | space c hc _ ih => rw [scan?, if_pos hc, ih]
  | token hw hends _ ih => rw [scan?_of_scanOne? (scanOne?_of_spelled hw hends), ih]; rfl

variable {us : List Token}

theorem laid_of_spelled {w : List Char} (h : Spelled t w) : Laid [t] w := by
  have hlaid := Laid.token h (fun _ _ => ends_nil) .nil
  rwa [List.append_nil] at hlaid

/-- A layout goes on with a character that no numeral goes on with. -/
theorem Laid.append (h : Laid ts s) (h' : Laid us (c :: r)) (hc : isNumberChar c = false) :
    Laid (ts ++ us) (s ++ c :: r) := by
  induction h with
  | nil => exact h'
  | space x hx _ ih => exact .space x hx ih
  | @token t w ts s hw hends _ ih =>
    rw [List.append_assoc]
    -- Behind a numeral at the very end stands now what is appended.
    refine .token hw (fun n hn => ?_) ih
    cases s with
    | nil => exact ends_cons hc r
    | cons y s => exact ends_cons (hends n hn y rfl) _

end Token

/-! ## The compact text -/

open Token Value

theorem laid_items {items : List Value} (h : ∀ v ∈ items, Laid v.toTree.tokens v.chars) :
    Laid (Tree.itemTokens (itemTrees items)) (itemChars items) := by
  induction items with
  | nil => exact .nil
  | cons v r ih =>
    obtain ⟨hv, hr⟩ := List.forall_mem_cons.mp h
    cases r with
    | nil => exact hv
    | cons w r => exact hv.append (.token .comma nofun (ih hr)) rfl

theorem laid_members {members : List (String × Value)}
    (h : ∀ m ∈ members, Laid m.2.toTree.tokens m.2.chars) :
    Laid (Tree.memberTokens (memberTrees members)) (memberChars members) := by
  induction members with
  | nil => exact .nil
  | cons m r ih =>
    obtain ⟨k, v⟩ := m
    obtain ⟨hv, hr⟩ := List.forall_mem_cons.mp h
    have hmember : Laid (.text (some k) :: .colon :: v.toTree.tokens)
        (textChars k.toList ++ ':' :: v.chars) :=
      .token (.text k) nofun (.token .colon nofun hv)
    cases r with
    | nil => exact hmember
    | cons n r => exact hmember.append (.token .comma nofun (ih hr)) rfl

theorem laid_chars {v : Value} (h : v.Sound) : Laid v.toTree.tokens v.chars := by
  induction h with
  | null => exact laid_of_spelled .null
  | bool b =>
    cases b with
    | false => exact laid_of_spelled .false
    | true => exact laid_of_spelled .true
  | number n hn => exact laid_of_spelled (.number n hn)
  | text s => exact laid_of_spelled (.text s)
  | array items _ ih =>
    have hopened : Laid (.openArray :: Tree.itemTokens (itemTrees items))
        ('[' :: itemChars items) := .token .openArray nofun (laid_items ih)
    exact hopened.append (laid_of_spelled .closeArray) rfl
  | object members _ _ ih =>
    have hopened : Laid (.openObject :: Tree.memberTokens (memberTrees members))
        ('\x7b' :: memberChars members) := .token .openObject nofun (laid_members ih)
    exact hopened.append (laid_of_spelled .closeObject) rfl

theorem parse?_of_laid {s : String} {t : Tree} (h : Laid t.tokens s.toList) :
    Tree.parse? s = some t := by
  rw [Tree.parse?, scan?_of_laid h, Option.bind_some, Tree.ofTokens?_tokens]

/-! ## Numbers that are scanned -/

theorem isWord_of_integer? {negative : Bool} {ds : List Char} {n : Int}
    (h : integer? negative ds = some n) : IsWord n := by
  have hsize : UInt64.size = 2 ^ 64 := rfl
  rw [isWord_iff]
  unfold integer? at h
  simp only [hsize] at h
  constructor <;> grind

theorem isWord_of_number? {s : List Char} {n : Int} (h : number? s = some (.number (some n))) :
    IsWord n := by
  unfold number? at h
  dsimp only at h
  generalize (if (s.head? == some '-') = true then s.tail else s) = unsigned at h
  split at h
  · have hvalue := Token.number.inj (Option.some.inj h)
    split at hvalue
    · exact isWord_of_integer? hvalue
    · cases hvalue
  · cases h

theorem isWord_of_scanOne? {s r : List Char} {n : Int}
    (h : scanOne? s = some (.number (some n), r)) : IsWord n := by
  unfold scanOne? at h
  split at h
  case h_10 =>
    obtain ⟨p, -, hp⟩ := Option.map_eq_some_iff.mp h
    cases hp
  case h_11 =>
    split at h
    · obtain ⟨t, ht, hp⟩ := Option.map_eq_some_iff.mp h
      obtain ⟨rfl, -⟩ := Prod.mk.inj hp
      exact isWord_of_number? ht
    · cases h
  all_goals cases h

theorem isWord_of_scan? {s : List Char} {ts : List Token} {n : Int} (h : scan? s = some ts)
    (hn : .number (some n) ∈ ts) : IsWord n := by
  fun_induction scan? s generalizing ts with
  | case1 =>
    cases h
    exact absurd hn List.not_mem_nil
  | case2 c r _ ih => exact ih h hn
  | case3 => cases h
  | case4 c r _ t rest hone ih =>
    obtain ⟨us, hus, rfl⟩ := Option.map_eq_some_iff.mp h
    rcases List.mem_cons.mp hn with rfl | hn
    · exact isWord_of_scanOne? hone
    · exact ih hus hn

theorem isWord_of_parse? {s : String} {t : Tree} {n : Int} (h : Tree.parse? s = some t)
    (hn : .number (some n) ∈ t.tokens) : IsWord n := by
  obtain ⟨ts, hscan, htree⟩ := Option.bind_eq_some_iff.mp h
  exact isWord_of_scan? hscan (Tree.ofTokens?_eq_some_iff.mp htree ▸ hn)

end Outbox.Json
