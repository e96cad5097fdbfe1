import Outbox.Json.Token

/-! # The tree of a JSON text

`Tree.ofTokens?` reads tokens from the left with a stack of the containers still open, one frame
each, so that any nesting is read. What a tree says about values comes second: `toValue?` takes a
tree to a value if all its texts and numbers have one and its containers are nested no deeper than
a limit, and `record?` takes apart a record, written as an object or as an array. -/
namespace Outbox.Json
set_option autoImplicit false

inductive Tree where
  | null
  | bool (b : Bool)
  | number (n : Option Int)
  | text (s : Option String)
  | array (items : List Tree)
  | object (members : List (Option String × Tree))
  deriving Inhabited, Repr

namespace Tree

/-! ## From tokens -/

/-- A container still open, with what it holds so far, last first. -/
inductive Frame where
  | array (items : List Tree)
  | object (members : List (Option String × Tree)) (key : Option String)

inductive Place where
  | value
  | firstItem
  | firstKey
  | key (members : List (Option String × Tree))
  | colon
  | more
  | finished (t : Tree)

structure State where
  frames : List Frame
  place : Place

def State.start : State := ⟨[], .value⟩

/-- A value is complete: the innermost open container takes it. -/
def State.complete (t : Tree) : List Frame → State
  | [] => ⟨[], .finished t⟩
  | .array items :: fs => ⟨.array (t :: items) :: fs, .more⟩
  | .object members key :: fs => ⟨.object ((key, t) :: members) key :: fs, .more⟩

def State.value (fs : List Frame) : Token → Option State
  | .null => some (complete .null fs)
  | .bool b => some (complete (.bool b) fs)
  | .number n => some (complete (.number n) fs)
  | .text s => some (complete (.text s) fs)
  | .openArray => some ⟨.array [] :: fs, .firstItem⟩
  | .openObject => some ⟨fs, .firstKey⟩
  | _ => none

/-- An open container takes the next comma or is closed. -/
def State.more : List Frame → Token → Option State
  | .array items :: fs, .comma => some ⟨.array items :: fs, .value⟩
  | .array items :: fs, .closeArray => some (complete (.array items.reverse) fs)
  | .object members _ :: fs, .comma => some ⟨fs, .key members⟩
  | .object members _ :: fs, .closeObject => some (complete (.object members.reverse) fs)
  | _, _ => none

def State.step (s : State) (t : Token) : Option State :=
  match s.place, t with
  | .value, t => State.value s.frames t
  | .firstItem, .closeArray => State.more s.frames .closeArray
  | .firstItem, t => State.value s.frames t
  | .firstKey, .closeObject => some (complete (.object []) s.frames)
  | .firstKey, .text k => some ⟨.object [] k :: s.frames, .colon⟩
  | .key members, .text k => some ⟨.object members k :: s.frames, .colon⟩
  | .colon, .colon => some ⟨s.frames, .value⟩
  | .more, t => State.more s.frames t
  | _, _ => none

def ofTokens? (ts : List Token) : Option Tree := do
  match (← ts.foldlM State.step State.start).place with
  | .finished t => some t
  | _ => none

def parse? (s : String) : Option Tree :=
  (Token.scan? s.toList).bind ofTokens?

/-! ## Values -/

mutual

/-- The value of a tree with at most `limit` containers inside each other. -/
def toValue? (limit : Nat) : Tree → Option Value
  | null => some .null
  | bool b => some (.bool b)
  | number n => n.map .number
  | text s => s.map .text
  | array items => if limit = 0 then none else (toItems? (limit - 1) items).map .array
  | object members =>
    if limit = 0 then none else (toMembers? (limit - 1) members).map Value.ofMembers

def toItems? (limit : Nat) : List Tree → Option (List Value)
  | [] => some []
  | t :: r => do return (← toValue? limit t) :: (← toItems? limit r)

def toMembers? (limit : Nat) : List (Option String × Tree) → Option (List (String × Value))
  | [] => some []
  | (k, t) :: r => do return (← k, ← toValue? limit t) :: (← toMembers? limit r)

end

/-- The fields of a record in the order of `names`: an object has each of them once and may have
other members, an array has exactly these. -/
def record? (names : List String) : Tree → Option (List Tree)
  | array items => if items.length = names.length then some items else none
  | object members =>
    if members.all fun (k, _) => k.isSome then
      names.mapM fun name =>
        match members.filter fun (k, _) => k == some name with
        | [(_, t)] => some t
        | _ => none
    else none
  | _ => none

def text? : Tree → Option String
  | text s => s
  | _ => none

def natural? (bound : Nat) : Tree → Option Nat
  | number (some (.ofNat n)) => if n < bound then some n else none
  | _ => none

end Tree

/-! ## Types with a written form -/

/-- A type whose values are written as JSON and read back from a tree. -/
class Wire (α : Type) where
  toJson : α → Value
  ofTree? : Tree → Option α

def Wire.write {α : Type} [Wire α] (a : α) : String := (Wire.toJson a).compact

def Wire.read? {α : Type} [Wire α] (s : String) : Option α :=
  (Tree.parse? s).bind Wire.ofTree?

end Outbox.Json
