import Outbox.Failure
import Outbox.Text.Split

/-! # Job identifiers

A job id is thirty two hexadecimal digits, written in groups of 8, 4, 4, 4 and 12 with lower case
letters. It is read from the bare digits, from the groups, from the groups in braces and from the
groups after `urn:uuid:`, all of them in either case. Main statement: `ofChars?_chars`, the written
form is read back. -/
namespace Outbox
set_option autoImplicit false

structure JobId where
  digits : List (Fin 16)
  length_digits : digits.length = 32
  deriving DecidableEq, Repr

namespace JobId
open Text

/-- The id whose digits write `n`; only the last thirty two digits of `n` count. -/
def ofNat (n : Nat) : JobId :=
  ⟨(List.range 32).map fun i => Fin.ofNat 16 (n / Nat.pow 16 (31 - i)), by simp⟩

def hexChar (d : Fin 16) : Char := Nat.digitChar d.val

def hexDigit? (c : Char) : Option (Fin 16) :=
  if '0' ≤ c ∧ c ≤ '9' then some (Fin.ofNat 16 (c.toNat - '0'.toNat))
  else if 'a' ≤ c ∧ c ≤ 'f' then some (Fin.ofNat 16 (c.toNat - 'a'.toNat + 10))
  else if 'A' ≤ c ∧ c ≤ 'F' then some (Fin.ofNat 16 (c.toNat - 'A'.toNat + 10))
  else none

def groupLengths : List Nat := [8, 4, 4, 4, 12]

/-- Consecutive pieces of the given lengths. -/
def groups {α : Type} : List Nat → List α → List (List α)
  | [], _ => []
  | n :: ns, s => s.take n :: groups ns (s.drop n)

def chars (id : JobId) : List Char :=
  joined '-' ((groups groupLengths id.digits).map (·.map hexChar))

def text (id : JobId) : String := String.ofList id.chars

/-! ## Reading -/

def ofDigits? (s : List Char) : Option JobId :=
  match s.mapM hexDigit? with
  | none => none
  | some ds => if h : ds.length = 32 then some ⟨ds, h⟩ else none

def ofGroups? (s : List Char) : Option JobId :=
  let gs := fields '-' s
  if gs.map List.length = groupLengths then ofDigits? gs.flatten else none

def unbraced? (s : List Char) : Option (List Char) :=
  if s.head? = some '\x7b' ∧ s.getLast? = some '\x7d' then some s.tail.dropLast else none

def urn : List Char := "urn:uuid:".toList

/-- The text after the name of the urn, whose case does not matter. -/
def afterUrn? (s : List Char) : Option (List Char) :=
  if (s.take urn.length).map Char.toLower = urn then some (s.drop urn.length) else none

def ofChars? (s : List Char) : Option JobId :=
  match unbraced? s with
  | some inner => ofGroups? inner
  | none =>
    match afterUrn? s with
    | some rest => ofGroups? rest
    | none => if s.length = 32 then ofDigits? s else ofGroups? s

def parse (s : String) : Except Invalid JobId :=
  match ofChars? s.toList with
  | some id => .ok id
  | none => .error (.identifier "JobId: neither thirty two hexadecimal digits nor their groups")

/-! ## Reading back what was written -/

theorem hexDigit?_hexChar (d : Fin 16) : hexDigit? (hexChar d) = some d := by
  revert d; decide

theorem hyphen_ne_hexChar (d : Fin 16) : hexChar d ≠ '-' := by
  revert d; decide

theorem brace_ne_hexChar (d : Fin 16) : hexChar d ≠ '\x7b' := by
  revert d; decide

theorem toLower_hexChar (d : Fin 16) : (hexChar d).toLower ≠ 'u' := by
  revert d; decide

theorem mapM_hexDigit? (ds : List (Fin 16)) : (ds.map hexChar).mapM hexDigit? = some ds := by
  induction ds with
  | nil => rfl
  | cons d r ih => simp [List.mapM_cons, hexDigit?_hexChar, ih]

theorem flatten_groups {α : Type} (ns : List Nat) (s : List α) (h : s.length ≤ ns.foldr (· + ·) 0) :
    (groups ns s).flatten = s := by
  induction ns generalizing s with
  | nil => simp_all [groups]
  | cons n ns ih =>
    simp only [List.foldr_cons] at h
    rw [groups, List.flatten_cons, ih _ (by rw [List.length_drop]; omega), List.take_append_drop]

theorem length_of_groups {α : Type} (ns : List Nat) (s : List α) (h : s.length = ns.foldr (· + ·) 0) :
    (groups ns s).map List.length = ns := by
  induction ns generalizing s with
  | nil => rfl
  | cons n ns ih =>
    simp only [List.foldr_cons] at h
    rw [groups, List.map_cons, ih _ (by rw [List.length_drop]; omega), List.length_take]
    rw [Nat.min_eq_left (by omega)]

theorem ofDigits?_digits (id : JobId) : ofDigits? (id.digits.map hexChar) = some id := by
  rw [ofDigits?, mapM_hexDigit?]
  simp [id.length_digits]

theorem ofGroups?_chars (id : JobId) : ofGroups? id.chars = some id := by
  have hsum : id.digits.length = groupLengths.foldr (· + ·) 0 := id.length_digits
  have hf : fields '-' id.chars = (groups groupLengths id.digits).map (·.map hexChar) := by
    refine fields_joined (by simp [groups, groupLengths]) ?_
    intro f hf hc
    obtain ⟨g, _, rfl⟩ := List.mem_map.1 hf
    obtain ⟨d, _, hd⟩ := List.mem_map.1 hc
    exact hyphen_ne_hexChar d hd
  have hl : (fields '-' id.chars).map List.length = groupLengths := by
    rw [hf, List.map_map]
    simpa [Function.comp_def] using length_of_groups groupLengths id.digits hsum
  have hd : (fields '-' id.chars).flatten = id.digits.map hexChar := by
    rw [hf, ← List.map_flatten, flatten_groups _ _ (Nat.le_of_eq hsum)]
  simp [ofGroups?, hl, hd, ofDigits?_digits]

theorem chars_eq_cons (id : JobId) : ∃ d r, id.chars = hexChar d :: r := by
  obtain ⟨ds, h⟩ := id
  cases ds with
  | nil => simp at h
  | cons d r =>
    exact ⟨d, joined '-' ((groups groupLengths (d :: r)).map (·.map hexChar)) |>.tail, rfl⟩

theorem length_chars (id : JobId) : id.chars.length = 36 := by
  have h := id.length_digits
  simp only [chars, groups, groupLengths, List.map_cons, List.map_nil, joined,
    List.length_append, List.length_cons, List.length_map, List.length_take, List.length_drop]
  omega

theorem ofChars?_chars (id : JobId) : ofChars? id.chars = some id := by
  obtain ⟨d, r, h⟩ := id.chars_eq_cons
  have hb : unbraced? id.chars = none := by
    simp [unbraced?, h, brace_ne_hexChar]
  have hu : afterUrn? id.chars = none := by
    rw [afterUrn?, if_neg]
    intro he
    have hh := congrArg List.head? he
    rw [h] at hh
    exact toLower_hexChar d (Option.some.inj hh)
  rw [ofChars?, hb, hu]
  simp [length_chars, ofGroups?_chars]

end JobId

end Outbox
