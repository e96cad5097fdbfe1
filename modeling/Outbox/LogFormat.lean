import Outbox.Text.Blank
import Outbox.Text.Quoted

/-! # Log formats

Three formats, read by name in either case of the ASCII letters and with blanks around it. -/
namespace Outbox
set_option autoImplicit false

inductive LogFormat where
  | json
  | pretty
  | compact
  deriving DecidableEq, Repr

namespace LogFormat
open Text

/-- What is logged unless a known name is given. -/
def default : LogFormat := .json

def ofName? (s : List Char) : Option LogFormat :=
  match String.ofList (s.map Char.toLower) with
  | "json" => some .json
  | "pretty" => some .pretty
  | "compact" => some .compact
  | _ => none

structure Unknown where
  name : String
  deriving DecidableEq, Repr

def Unknown.message (u : Unknown) : String :=
  "unknown log format " ++ quoted u.name ++ " (expected json, pretty or compact)"

def parse (s : String) : Except Unknown LogFormat :=
  match ofName? (trim s.toList) with
  | some f => .ok f
  | none => .error ⟨s⟩

/-- The format that a variable of the environment asks for. -/
def ofVariable (value : Option String) : LogFormat :=
  match value.map parse with
  | some (.ok f) => f
  | _ => default

end LogFormat

end Outbox
