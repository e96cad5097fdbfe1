import Outbox.Notice
import Outbox.Registry

/-! # Registries within registries

A hall holds several registries by name, and the name of a registry may stand in another one: then
it passes on what it is told. A notice goes to the members that the registry had when it came, in
their order, and each of them may ask for changes before the next one is told. The registry's vote
is true if any member's is; all of them are asked. -/
namespace Outbox
set_option autoImplicit false

/-- What a listener may ask of the registries while it is told something. -/
inductive Ask where
  | add (registry member : String)
  | remove (registry member : String)
  | contains (registry member : String)
  deriving DecidableEq, Repr

/-- What a listener does with a notice: it asks, one after the other, and then votes. `σ` is what
the listeners remember. -/
inductive Reaction (σ : Type) where
  | vote (v : Bool) (s : σ)
  | ask (a : Ask) (rest : Bool → Reaction σ)

structure Hall (σ : Type) where
  registries : List (String × Registry String)
  /-- Who was told what by which registry, last first. -/
  told : List (String × String × Notice) := []
  memory : σ

namespace Hall
variable {σ : Type}

def isRegistry (h : Hall σ) (name : String) : Bool := (h.registries.lookup name).isSome

def registry (h : Hall σ) (name : String) : Registry String := (h.registries.lookup name).getD {}

def setRegistry (h : Hall σ) (name : String) (r : Registry String) : Hall σ :=
  { h with registries := h.registries.map fun (n, r') => if n = name then (n, r) else (n, r') }

def perform (h : Hall σ) : Ask → Bool × Hall σ
  | .add r m => let (b, r') := (h.registry r).add m; (b, h.setRegistry r r')
  | .remove r m => let (b, r') := (h.registry r).remove m; (b, h.setRegistry r r')
  | .contains r m => ((h.registry r).contains m, h)

/-- Carries out what a listener asks and takes its vote. -/
def carryOut : Reaction σ → Hall σ → Bool × Hall σ
  | .vote v s, h => (v, { h with memory := s })
  | .ask a rest, h => carryOut (rest (h.perform a).1) (h.perform a).2

/-- What the listeners do: by name, for a notice, from what they remember. -/
abbrev Behaviour (σ : Type) := String → Notice → σ → Reaction σ

def note (h : Hall σ) (registry member : String) (n : Notice) : Hall σ :=
  { h with told := (registry, member, n) :: h.told }

/-- Tells one member; `pass` is how a registry passes a notice on. -/
def tell (behave : Behaviour σ) (pass : String → Hall σ → Option (Bool × Hall σ))
    (registry : String) (n : Notice) (h : Hall σ) (m : String) : Option (Bool × Hall σ) :=
  let h := h.note registry m n
  if h.isRegistry m then pass m h else some (carryOut (behave m n h.memory) h)

/-- Tells all members of a registry; nothing comes of it when registries are nested deeper than
`depth`. -/
def broadcast (behave : Behaviour σ) : Nat → String → Notice → Hall σ → Option (Bool × Hall σ)
  | 0, _, _, _ => none
  | depth + 1, name, n, h =>
    (h.registry name).members.foldlM (fun (v, h) m => do
      let (w, h) ← tell behave (fun m h => broadcast behave depth m n h) name n h m
      return (v || w, h)) (false, h)

end Hall

end Outbox
