/-! # JSON values and their compact text

A value's numbers are integers and its objects keep their members in the order of the list.
`Value.ofMembers` is the object that a reader builds: members sorted by key, and of a repeated key
the last one only. `Value.compact` is the compact text: no spaces, everything above the control
characters raw. -/
namespace Outbox.Json
set_option autoImplicit false

inductive Value where
  | null
  | bool (b : Bool)
  | number (n : Int)
  | text (s : String)
  | array (items : List Value)
  | object (members : List (String × Value))
  deriving Inhabited, Repr

namespace Value

/-- Puts a member in its place among sorted ones; an equal key loses its value. -/
def insertMember (k : String) (v : Value) : List (String × Value) → List (String × Value)
  | [] => [(k, v)]
  | (k', v') :: r =>
    if k < k' then (k, v) :: (k', v') :: r
    else if k = k' then (k, v) :: r
    else (k', v') :: insertMember k v r

def ofMembers (ms : List (String × Value)) : Value :=
  .object (ms.foldl (fun acc (k, v) => insertMember k v acc) [])

/-! ## How deep containers are nested -/

mutual

def depth : Value → Nat
  | array items => depthItems items + 1
  | object members => depthMembers members + 1
  | _ => 0

def depthItems : List Value → Nat
  | [] => 0
  | v :: r => max (depth v) (depthItems r)

def depthMembers : List (String × Value) → Nat
  | [] => 0
  | (_, v) :: r => max (depth v) (depthMembers r)

end

/-! ## The compact text -/

/-- Two characters for the escapes that have a letter, six for the other control characters. -/
def escaped (c : Char) : List Char :=
  match c with
  | '"' => ['\\', '"']
  | '\\' => ['\\', '\\']
  | '\x08' => ['\\', 'b']
  | '\x0c' => ['\\', 'f']
  | '\n' => ['\\', 'n']
  | '\r' => ['\\', 'r']
  | '\t' => ['\\', 't']
  | c =>
    if c.toNat < 0x20 then
      ['\\', 'u', '0', '0', Nat.digitChar (c.toNat / 16), Nat.digitChar (c.toNat % 16)]
    else [c]

def textChars (s : List Char) : List Char :=
  '"' :: s.flatMap escaped ++ ['"']

def numberChars : Int → List Char
  | .ofNat n => Nat.toDigits 10 n
  | .negSucc n => '-' :: Nat.toDigits 10 (n + 1)

mutual

def chars : Value → List Char
  | null => "null".toList
  | bool true => "true".toList
  | bool false => "false".toList
  | number n => numberChars n
  | text s => textChars s.toList
  | array items => '[' :: itemChars items ++ [']']
  | object members => '\x7b' :: memberChars members ++ ['\x7d']

def itemChars : List Value → List Char
  | [] => []
  | [v] => chars v
  | v :: r => chars v ++ ',' :: itemChars r

def memberChars : List (String × Value) → List Char
  | [] => []
  | [(k, v)] => textChars k.toList ++ ':' :: chars v
  | (k, v) :: r => textChars k.toList ++ ':' :: chars v ++ ',' :: memberChars r

end

def compact (v : Value) : String := String.ofList v.chars

end Value

end Outbox.Json
