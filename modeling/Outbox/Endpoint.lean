import Outbox.Failure
import Outbox.Json.Tree
import Outbox.Text.Numeral
import Outbox.Text.Quoted

/-! # Server endpoints

An endpoint is written `host:port`. It is read with blanks around it, and without a port it has
the default one. The last colon separates the port, so a host may hold colons; a host is not empty
and holds no blank. -/
namespace Outbox
set_option autoImplicit false

structure Endpoint where
  host : String
  port : UInt16
  deriving DecidableEq, Repr

namespace Endpoint
open Text

def defaultPort : UInt16 := 5222

/-- The port is read first, so that its problem wins. -/
inductive Problem where
  | badPort (port : String) (problem : Numeral.Problem)
  | badHost (host : String)
  deriving DecidableEq, Repr

def Problem.toInvalid : Problem → Invalid
  | .badPort port p => .value ("endpoint port " ++ quoted port ++ ": " ++ p.message)
  | .badHost host => .value ("endpoint host " ++ quoted host)

def chars (e : Endpoint) : List Char := e.host.toList ++ ':' :: Numeral.digits e.port.toNat

def text (e : Endpoint) : String := String.ofList e.chars

def portOf (s : List Char) : Except Problem UInt16 :=
  match Numeral.read UInt16.size s with
  | .ok n => .ok (UInt16.ofNat n)
  | .error p => .error (.badPort (String.ofList s) p)

def isHost (s : List Char) : Bool := !s.isEmpty && !s.any isBlank

def withHost (s : List Char) (port : UInt16) : Except Problem Endpoint :=
  if isHost s then .ok ⟨String.ofList s, port⟩ else .error (.badHost (String.ofList s))

def ofChars (s : List Char) : Except Problem Endpoint :=
  match cutAtLast? ':' (trim s) with
  | some (host, port) => do withHost host (← portOf port)
  | none => withHost (trim s) defaultPort

def parse (s : String) : Except Problem Endpoint := ofChars s.toList

instance : Json.Wire Endpoint where
  toJson e := .object [("host", .text e.host), ("port", .number e.port.toNat)]
  ofTree? t := do
    match ← t.record? ["host", "port"] with
    | [host, port] => return ⟨← host.text?, UInt16.ofNat (← port.natural? UInt16.size)⟩
    | _ => none

end Endpoint

end Outbox
