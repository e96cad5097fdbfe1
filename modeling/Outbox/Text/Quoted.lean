import Outbox.Text.Invisible

/-! # Quoted texts

A text between double quotes, in which the quote and the backslash are escaped by a backslash,
four control characters have a letter, and every other invisible character is written by its code
point in hexadecimal. A single quote stays as it is. -/
namespace Outbox.Text
set_option autoImplicit false

def escaped (c : Char) : List Char :=
  match c with
  | '\x00' => ['\\', '0']
  | '\t' => ['\\', 't']
  | '\r' => ['\\', 'r']
  | '\n' => ['\\', 'n']
  | '"' => ['\\', '"']
  | '\\' => ['\\', '\\']
  | c =>
    if isInvisible c then '\\' :: 'u' :: '\x7b' :: Nat.toDigits 16 c.toNat ++ ['\x7d'] else [c]

def quotedChars (s : List Char) : List Char :=
  '"' :: s.flatMap escaped ++ ['"']

def quoted (s : String) : String := String.ofList (quotedChars s.toList)

example : quoted "a'b" = "\"a'b\"" := by decide +kernel
example : quoted "\"\\\n" = "\"\\\"\\\\\\n\"" := by decide +kernel

end Outbox.Text
