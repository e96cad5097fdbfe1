import Outbox.Json.Value

/-! # The tokens of a JSON text

`Token.scan?` cuts a text into tokens or refuses it. A number token carries its value when it is
written as an integer and lies between -2^63 and 2^64 - 1; a text token carries its characters
when no surrogate escape in it stands alone. A token without a value is well formed all the same:
a reader that skips it never looks at its value. -/
namespace Outbox.Json
set_option autoImplicit false

inductive Token where
  | openObject
  | closeObject
  | openArray
  | closeArray
  | colon
  | comma
  | null
  | bool (b : Bool)
  | number (n : Option Int)
  | text (s : Option String)
  deriving DecidableEq, Repr

namespace Token

/-! ## Texts -/

def hexDigit? (c : Char) : Option Nat :=
  if '0' ≤ c ∧ c ≤ '9' then some (c.toNat - '0'.toNat)
  else if 'a' ≤ c ∧ c ≤ 'f' then some (c.toNat - 'a'.toNat + 10)
  else if 'A' ≤ c ∧ c ≤ 'F' then some (c.toNat - 'A'.toNat + 10)
  else none

def unit? (a b c d : Char) : Option Nat := do
  return (((← hexDigit? a) * 16 + (← hexDigit? b)) * 16 + (← hexDigit? c)) * 16 + (← hexDigit? d)

def isHigh (u : Nat) : Bool := 0xD800 ≤ u && u < 0xDC00

def isLow (u : Nat) : Bool := 0xDC00 ≤ u && u < 0xE000

/-- The character that a pair of surrogates stands for. -/
def paired (high low : Nat) : Char :=
  Char.ofNat ((high - 0xD800) * 0x400 + (low - 0xDC00) + 0x10000)

def letter? : Char → Option Char
  | '"' => some '"'
  | '\\' => some '\\'
  | '/' => some '/'
  | 'b' => some '\x08'
  | 'f' => some '\x0c'
  | 'n' => some '\n'
  | 'r' => some '\r'
  | 't' => some '\t'
  | _ => none

/-- What one character or one escape of a text contributes: a character, or half of one. -/
inductive Piece where
  | char (c : Char)
  | half (u : Nat)
  deriving DecidableEq, Repr

def Piece.ofUnit (u : Nat) : Piece :=
  if isHigh u || isLow u then .half u else .char (Char.ofNat u)

/-- Joins the halves that follow each other in the right order; a half that is left over has no
reading. -/
def joinPieces : List Piece → Option (List Char)
  | [] => some []
  | .char c :: r => (joinPieces r).map (c :: ·)
  | .half u :: .half v :: r =>
    if isHigh u && isLow v then (joinPieces r).map (paired u v :: ·) else none
  | .half _ :: _ => none

/-- The pieces up to the closing quote, and what follows it. -/
def scanText : List Char → Option (List Piece × List Char)
  | '"' :: r => some ([], r)
  | '\\' :: 'u' :: a :: b :: c :: d :: r => do
    let u ← unit? a b c d
    let (ps, rest) ← scanText r
    return (Piece.ofUnit u :: ps, rest)
  | '\\' :: e :: r => do
    let c ← letter? e
    let (ps, rest) ← scanText r
    return (.char c :: ps, rest)
  | c :: r =>
    if c.toNat < 0x20 ∨ c = '\\' then none
    else (scanText r).map fun (ps, rest) => (.char c :: ps, rest)
  | [] => none

/-! ## Numbers -/

def isNumberChar (c : Char) : Bool :=
  c.isDigit || c == '-' || c == '+' || c == '.' || c == 'e' || c == 'E'

def isDigits (s : List Char) : Bool := !s.isEmpty && s.all Char.isDigit

def isExponent : List Char → Bool
  | '+' :: r => isDigits r
  | '-' :: r => isDigits r
  | r => isDigits r

/-- What may follow the integer digits: nothing, a fraction, an exponent, or both. -/
def isTail : List Char → Bool
  | [] => true
  | '.' :: r =>
    isDigits (r.takeWhile Char.isDigit) &&
      match r.dropWhile Char.isDigit with
      | [] => true
      | 'e' :: r' => isExponent r'
      | 'E' :: r' => isExponent r'
      | _ => false
  | 'e' :: r => isExponent r
  | 'E' :: r => isExponent r
  | _ => false

def isInteger : List Char → Bool
  | ['0'] => true
  | '0' :: _ => false
  | s => isDigits s

/-- The value of a numeral without fraction and exponent, if it is in range; zero has no sign. -/
def integer? (negative : Bool) (digits : List Char) : Option Int :=
  let n := Nat.ofDigitChars 10 digits 0
  if negative then if 0 < n ∧ n ≤ UInt64.size / 2 then some (-(n : Int)) else none
  else if n < UInt64.size then some n else none

def number? (s : List Char) : Option Token :=
  let negative := s.head? == some '-'
  let unsigned := if negative then s.tail else s
  let digits := unsigned.takeWhile Char.isDigit
  let tail := unsigned.dropWhile Char.isDigit
  if isInteger digits && isTail tail then
    some (.number (if tail.isEmpty then integer? negative digits else none))
  else none

/-! ## The whole text -/

def isSpace (c : Char) : Bool := c == ' ' || c == '\n' || c == '\t' || c == '\r'

/-- The first token of a text that does not begin with a space, and what follows it. -/
def scanOne? : List Char → Option (Token × List Char)
  | '\x7b' :: r => some (.openObject, r)
  | '\x7d' :: r => some (.closeObject, r)
  | '[' :: r => some (.openArray, r)
  | ']' :: r => some (.closeArray, r)
  | ':' :: r => some (.colon, r)
  | ',' :: r => some (.comma, r)
  | 'n' :: 'u' :: 'l' :: 'l' :: r => some (.null, r)
  | 't' :: 'r' :: 'u' :: 'e' :: r => some (.bool true, r)
  | 'f' :: 'a' :: 'l' :: 's' :: 'e' :: r => some (.bool false, r)
  | '"' :: r => (scanText r).map fun (ps, t) => (.text ((joinPieces ps).map String.ofList), t)
  | c :: r =>
    if isNumberChar c then
      (number? (c :: r.takeWhile isNumberChar)).map fun t => (t, r.dropWhile isNumberChar)
    else none
  | [] => none

theorem scanText_length {s : List Char} {ps : List Piece} {r : List Char}
    (h : scanText s = some (ps, r)) : r.length < s.length := by
  fun_induction scanText s generalizing ps r <;>
    simp_all [Option.bind_eq_some_iff, Option.map_eq_some_iff] <;> grind

theorem length_dropWhile_le (p : Char → Bool) (s : List Char) :
    (s.dropWhile p).length ≤ s.length :=
  (List.dropWhile_sublist p).length_le

theorem scanOne?_length {s : List Char} {t : Token} {r : List Char}
    (h : scanOne? s = some (t, r)) : r.length < s.length := by
  unfold scanOne? at h
  split at h
  case h_10 =>
    obtain ⟨⟨x, r'⟩, hx, he⟩ := Option.map_eq_some_iff.1 h
    have := scanText_length hx
    simp_all
    omega
  case h_11 =>
    split at h
    · obtain ⟨_, _, he⟩ := Option.map_eq_some_iff.1 h
      simp only [Prod.mk.injEq] at he
      rw [← he.2, List.length_cons]
      exact Nat.lt_succ_of_le (length_dropWhile_le _ _)
    · simp at h
  all_goals
    simp only [Option.some.injEq, Prod.mk.injEq, reduceCtorEq] at h
  all_goals
    obtain ⟨_, rfl⟩ := h
    simp only [List.length_cons]
    omega

/-- All tokens of a text; spaces stand between them and at the ends. -/
def scan? : List Char → Option (List Token)
  | [] => some []
  | c :: r =>
    if isSpace c then scan? r
    else match _h : scanOne? (c :: r) with
      | none => none
      | some (t, rest) => (scan? rest).map (t :: ·)
termination_by s => s.length
decreasing_by
  · simp
  · exact scanOne?_length _h

end Token

end Outbox.Json
