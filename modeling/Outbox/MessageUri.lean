import Outbox.Failure
import Outbox.Text.Numeral

/-! # Message identifiers and the uris that carry them

The id of a message is the last segment of its uri's path: what follows the first `://` (or all of
the uri), up to the first `?` or `#`, without slashes at its end, after its last slash. It is a
decimal number below 2^64. `MessageUri.ofId` writes the uri of an id under a base. Main statement:
`messageId_ofId`, the id is read back from the uri that was written for it. -/
namespace Outbox
set_option autoImplicit false

/-- Identifies a stored message; two sends of one id are sends of one message. -/
structure MessageId where
  number : UInt64
  deriving DecidableEq, Repr

def MessageId.text (id : MessageId) : String := toString id.number.toNat

structure MessageUri where
  text : String
  deriving DecidableEq, Repr

namespace MessageUri
open Text

/-- Why a uri has no message id. -/
inductive Problem where
  | noId (uri : String)
  | badSegment (segment : String) (problem : Numeral.Problem)
  deriving DecidableEq, Repr

def Problem.toInvalid : Problem → Invalid
  | .noId uri => .identifier ("MessageId: no id in " ++ uri)
  | .badSegment segment p => .identifier ("MessageId: " ++ segment ++ ": " ++ p.message)

def scheme : List Char := [':', '/', '/']

/-- What follows the scheme; a uri without one is all path. -/
def afterScheme (s : List Char) : List Char :=
  match cutAt? scheme s with
  | some (_, rest) => rest
  | none => s

def isTailMark (c : Char) : Bool := c == '?' || c == '#'

/-- The last segment of the path, empty when the path has none. -/
def lastSegment (s : List Char) : List Char :=
  afterLast '/' (dropEnd (· == '/') ((afterScheme s).takeWhile fun c => !isTailMark c))

def messageId (u : MessageUri) : Except Problem MessageId :=
  let segment := lastSegment u.text.toList
  if segment.isEmpty then .error (.noId u.text)
  else match Numeral.read UInt64.size segment with
    | .ok n => .ok ⟨UInt64.ofNat n⟩
    | .error p => .error (.badSegment (String.ofList segment) p)

/-- The uri of a message under `base`, one slash between them. -/
def ofId (base : String) (id : MessageId) : MessageUri :=
  ⟨String.ofList (dropEnd (· == '/') base.toList ++ '/' :: Numeral.digits id.number.toNat)⟩

/-! ## Reading back -/

theorem slash_not_mem_digits (n : Nat) : '/' ∉ Numeral.digits n := fun h =>
  absurd (Numeral.isDigit_of_mem_digits h) (by decide)

theorem isTailMark_of_mem_digits {n : Nat} {c : Char} (h : c ∈ Numeral.digits n) :
    isTailMark c = false := by
  have hd := Numeral.isDigit_of_mem_digits h
  refine Bool.eq_false_iff.mpr fun hm => ?_
  rcases Bool.or_eq_true_iff.mp hm with hc | hc <;>
    exact absurd (beq_iff_eq.mp hc ▸ hd) (by decide)

theorem cut_or_uncut (s : List Char) : (∃ a b, FirstCut scheme s a b) ∨ ¬ scheme <:+: s := by
  cases h : cutAt? scheme s with
  | none => exact .inr (cutAt?_eq_none_iff.mp h)
  | some p => exact .inl ⟨p.1, p.2, cutAt?_eq_some_iff.mp h⟩

theorem afterScheme_of_cut {s a b : List Char} (h : FirstCut scheme s a b) :
    afterScheme s = b := by
  rw [afterScheme, cutAt?_eq_some_iff.mpr h]

theorem afterScheme_of_uncut {s : List Char} (h : ¬ scheme <:+: s) : afterScheme s = s := by
  rw [afterScheme, cutAt?_eq_none_iff.mpr h]

/-- No scheme comes about where a segment is put behind a text that does not end with a slash. -/
theorem not_scheme_infix_append {b ds : List Char} (hb : ¬ scheme <:+: b)
    (hlast : b.getLast? ≠ some '/') (hd : '/' ∉ ds) : ¬ scheme <:+: b ++ '/' :: ds := by
  rintro ⟨x, y, h⟩
  have heq : (x ++ [':', '/']) ++ '/' :: y = b ++ '/' :: ds := by simpa [scheme] using h
  have hend : ∀ z, b ≠ z ++ [':', '/'] := by
    rintro z rfl
    simp at hlast
  rcases List.append_eq_append_iff.mp heq with ⟨u, hu, hy⟩ | ⟨u, hu, hds⟩
  · cases u with
    | nil => exact hend x (by simpa using hu)
    | cons c u =>
      obtain rfl := (List.cons.inj hy).1
      exact hb ⟨x, u, by simp [scheme, hu]⟩
  · cases u with
    | nil => exact hend x (by simpa using hu.symm)
    | cons c u =>
      refine hd ?_
      rw [(List.cons.inj hds).2]
      simp

/-- A segment put behind a slash belongs to the path. -/
theorem afterScheme_append {b ds : List Char} (hlast : b.getLast? ≠ some '/') (hd : '/' ∉ ds) :
    afterScheme (b ++ '/' :: ds) = afterScheme b ++ '/' :: ds := by
  rcases cut_or_uncut b with ⟨a, rest, hcut⟩ | hb
  · rw [afterScheme_of_cut (hcut.append _), afterScheme_of_cut hcut]
  · rw [afterScheme_of_uncut hb, afterScheme_of_uncut (not_scheme_infix_append hb hlast hd)]

/-- The last segment of a uri that ends with a number is the number. -/
theorem lastSegment_append {b : List Char} (hlast : b.getLast? ≠ some '/')
    (hb : ∀ c ∈ afterScheme b, isTailMark c = false) (n : Nat) :
    lastSegment (b ++ '/' :: Numeral.digits n) = Numeral.digits n := by
  have hslash := slash_not_mem_digits n
  have hmarks : ∀ c ∈ afterScheme b ++ '/' :: Numeral.digits n, (!isTailMark c) = true := by
    intro c hc
    rw [Bool.not_eq_true']
    rcases List.mem_append.mp hc with hc | hc
    · exact hb c hc
    · rcases List.mem_cons.mp hc with rfl | hc
      · rfl
      · exact isTailMark_of_mem_digits hc
  have hpath : (afterScheme b ++ '/' :: Numeral.digits n ++ []).takeWhile (!isTailMark ·) =
      afterScheme b ++ '/' :: Numeral.digits n ++ [].takeWhile (!isTailMark ·) :=
    List.takeWhile_append_of_pos hmarks
  rw [List.append_nil, List.takeWhile_nil, List.append_nil] at hpath
  have hkept : dropEnd (· == '/') (afterScheme b ++ '/' :: Numeral.digits n) =
      afterScheme b ++ '/' :: Numeral.digits n := by
    rcases List.eq_nil_or_concat (Numeral.digits n) with hnil | ⟨v, c, hv⟩
    · exact absurd hnil (Numeral.digits_ne_nil n)
    · have hc : (c == '/') = false := by
        refine Bool.eq_false_iff.mpr fun h => hslash ?_
        rw [hv, beq_iff_eq.mp h]
        simp
      rw [hv, List.concat_eq_append, ← List.cons_append, ← List.append_assoc]
      exact dropEnd_concat_of_not _ hc
  rw [lastSegment, afterScheme_append hlast hslash, hpath, hkept,
    afterLast_append_cons _ _ hslash]

theorem messageId_of_lastSegment {u : MessageUri} {id : MessageId}
    (h : lastSegment u.text.toList = Numeral.digits id.number.toNat) : u.messageId = .ok id := by
  have hread : Numeral.read UInt64.size (Numeral.digits id.number.toNat) = .ok id.number.toNat :=
    Numeral.read_digits id.number.toNat_lt_size
  unfold messageId
  simp only [h, hread, List.isEmpty_eq_false_iff.mpr (Numeral.digits_ne_nil _),
    UInt64.ofNat_toNat, if_false, Bool.false_eq_true]

/-- The base may hold marks in front of its scheme, but not in its path. -/
theorem messageId_ofId {base : String}
    (hb : ∀ c ∈ afterScheme (dropEnd (· == '/') base.toList), isTailMark c = false)
    (id : MessageId) : (ofId base id).messageId = .ok id := by
  refine messageId_of_lastSegment ?_
  have hlast : (dropEnd (· == '/') base.toList).getLast? ≠ some '/' := fun h =>
    absurd (getLast?_dropEnd base.toList '/' h) (by decide)
  rw [ofId, String.toList_ofList]
  exact lastSegment_append hlast hb id.number.toNat

/-- Whether a uri has an id, and which one, depends on its last segment alone. -/
theorem messageId_congr {u v : MessageUri}
    (h : lastSegment u.text.toList = lastSegment v.text.toList) (id : MessageId) :
    u.messageId = .ok id ↔ v.messageId = .ok id := by
  unfold messageId
  simp only [h]
  split
  · simp
  · split <;> simp

end MessageUri

end Outbox
