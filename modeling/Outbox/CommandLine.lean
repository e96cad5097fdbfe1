import Outbox.Json.Pretty
import Outbox.Session
import Outbox.Timestamp

/-! # The command line

Sends every line of the input that is not blank as a message of its own and writes the statistics
of the worker. A bad configuration, a line that is no text and a refusal end the program with a
message and nothing else. -/
namespace Outbox.CommandLine
set_option autoImplicit false
open Text

/-! ## Lines -/

def newline : UInt8 := 10

/-- The lines with their ends; the last one may have none. -/
def rawLines (input : List UInt8) : List (List UInt8) :=
  input.foldr (fun b lines =>
    match lines with
    | [] => [[b]]
    | l :: ls => if b = newline then [b] :: l :: ls else (b :: l) :: ls) []

/-- A line ends with a line feed, before which a carriage return may stand. -/
def withoutEnd (s : List Char) : List Char :=
  match s.reverse with
  | '\n' :: '\r' :: r => r.reverse
  | '\n' :: r => r.reverse
  | _ => s

/-- The text of a line, if it is one. -/
def lineText? (line : List UInt8) : Option String :=
  (String.fromUTF8? ⟨line.toArray⟩).map fun s => String.ofList (withoutEnd s.toList)

/-! ## Outcomes -/

inductive Mishap where
  | badConfiguration (p : Config.Problem)
  | badInput
  | refused (r : Refusal)
  deriving DecidableEq, Repr

def Mishap.context : Mishap → String
  | badConfiguration _ => "invalid worker configuration"
  | badInput => "failed to read stdin"
  | refused _ => "worker refused message"

def Mishap.cause : Mishap → String
  | badConfiguration p => p.message
  | badInput => "stream did not contain valid UTF-8"
  | refused r => r.message

def Mishap.message (m : Mishap) : String :=
  "Error: " ++ m.context ++ "\n\nCaused by:\n    " ++ m.cause ++ "\n"

structure Exit where
  code : UInt8
  output : String
  errors : String
  deriving DecidableEq, Repr

/-! ## The program -/

def peerVariable : String := "COURIER_PEER"

def defaultPeer : String := "echo@localhost"

def takeLine (peer : String) (s : Session) (line : List UInt8) : Except Mishap Session :=
  match lineText? line with
  | none => .error .badInput
  | some body =>
    if (trim body.toList).isEmpty then .ok s
    else match s.send peer body with
      | .ok s => .ok s
      | .error r => .error (.refused r)

def session (lookup : Config.Lookup) (input : List UInt8) (now : Instant) :
    Except Mishap Session :=
  match Config.read lookup with
  | .error p => .error (.badConfiguration p)
  | .ok config =>
    let peer := (lookup peerVariable).getD defaultPeer
    (rawLines input).foldlM (takeLine peer) (Session.start config now)

/-- The environment, all of the input and the time of day decide how the program ends. -/
def run (lookup : Config.Lookup) (input : List UInt8) (now : Instant) : Exit :=
  match session lookup input now with
  | .ok s => ⟨0, (s.worker.statistics.toJson Timestamp.text).pretty ++ "\n", ""⟩
  | .error m => ⟨1, "", m.message⟩

end Outbox.CommandLine
