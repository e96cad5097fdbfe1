import Outbox.Json.Value

/-! # The indented text of a JSON value

Every item and every member stands on a line of its own, two spaces further in than its container.
An empty container is written without a line end. -/
namespace Outbox.Json.Value
set_option autoImplicit false

/-- A new line, `level` steps in. -/
def newLine (level : Nat) : List Char := '\n' :: List.replicate (2 * level) ' '

def block (first last : Char) (level : Nat) (lines : List (List Char)) : List Char :=
  if lines.isEmpty then [first, last]
  else
    first :: newLine (level + 1) ++ (List.intercalate (',' :: newLine (level + 1)) lines) ++
      newLine level ++ [last]

mutual

def prettyChars (level : Nat) : Value → List Char
  | array items => block '[' ']' level (prettyItems (level + 1) items)
  | object members => block '\x7b' '\x7d' level (prettyMembers (level + 1) members)
  | null => chars null
  | bool b => chars (bool b)
  | number n => chars (number n)
  | text s => chars (text s)

def prettyItems (level : Nat) : List Value → List (List Char)
  | [] => []
  | v :: r => prettyChars level v :: prettyItems level r

def prettyMembers (level : Nat) : List (String × Value) → List (List Char)
  | [] => []
  | (k, v) :: r =>
    (textChars k.toList ++ ':' :: ' ' :: prettyChars level v) :: prettyMembers level r

end

def pretty (v : Value) : String := String.ofList (prettyChars 0 v)

end Outbox.Json.Value
