import Outbox.Clock
import Outbox.Endpoint

/-! # Configuration of a worker

Each setting has a default and may come from a variable of the environment. `Config.read` looks
the variables up: a blank value counts as unset, numbers and endpoints may have blanks around them,
and empty items of the endpoint list are passed over. The first bad value in the order of
`Variable` is reported. `Config.written` writes a configuration as the variables that give it. -/
namespace Outbox
set_option autoImplicit false

structure Config where
  name : String := "request-worker"
  /-- How long the loop has to be quiet before the idle timer fires. -/
  idleTimeout : Duration := Duration.ofMillis 60000
  /-- How long a job whose retry was voted for waits. -/
  retryDelay : Duration := Duration.ofMillis 10000
  /-- How often a submission looks again for a loop that is not ready. -/
  submitAttempts : UInt32 := 10
  submitBackoff : Duration := Duration.ofMillis 500
  endpoints : List Endpoint := []
  initialHolds : UInt64 := 0
  deriving DecidableEq, Repr

namespace Config
open Text

inductive Variable where
  | workerName
  | idleTimeout
  | retryDelay
  | submitAttempts
  | submitBackoff
  | endpoints
  deriving DecidableEq, Repr

def Variable.all : List Variable :=
  [workerName, idleTimeout, retryDelay, submitAttempts, submitBackoff, endpoints]

def Variable.key : Variable → String
  | workerName => "COURIER_WORKER_NAME"
  | idleTimeout => "COURIER_IDLE_TIMEOUT_MS"
  | retryDelay => "COURIER_RETRY_DELAY_MS"
  | submitAttempts => "COURIER_SUBMIT_ATTEMPTS"
  | submitBackoff => "COURIER_SUBMIT_BACKOFF_MS"
  | endpoints => "COURIER_ENDPOINTS"

inductive Problem where
  | badNumber (key : Variable) (value : String)
  | badEndpoint (key : Variable) (value : String) (problem : Endpoint.Problem)
  deriving DecidableEq, Repr

def Problem.message : Problem → String
  | badNumber v value => v.key ++ ": expected a non-negative integer, got " ++ quoted value
  | badEndpoint v value p =>
    v.key ++ ": invalid endpoint " ++ quoted value ++ ": " ++ p.toInvalid.message

abbrev Lookup := String → Option String

/-! ## Reading -/

/-- The value of a variable that is set and not blank. -/
def setting? (lookup : Lookup) (v : Variable) : Option (List Char) :=
  ((lookup v.key).map String.toList).filter fun s => !(trim s).isEmpty

def readName (lookup : Lookup) (default : String) : String :=
  match setting? lookup .workerName with
  | some s => String.ofList (trim s)
  | none => default

/-- A number below `bound`, reported with the value as given. -/
def readNumber (lookup : Lookup) (v : Variable) (bound : Nat) : Except Problem (Option Nat) :=
  match setting? lookup v with
  | none => .ok none
  | some s =>
    match Numeral.read bound (trim s) with
    | .ok n => .ok (some n)
    | .error _ => .error (.badNumber v (String.ofList s))

def readMillis (lookup : Lookup) (v : Variable) (default : Duration) : Except Problem Duration := do
  match ← readNumber lookup v UInt64.size with
  | some n => return Duration.ofMillis (UInt64.ofNat n)
  | none => return default

def readAttempts (lookup : Lookup) (default : UInt32) : Except Problem UInt32 := do
  match ← readNumber lookup .submitAttempts UInt32.size with
  | some n => return UInt32.ofNat n
  | none => return default

/-- The items of an endpoint list that are not blank, trimmed. -/
def endpointItems (s : List Char) : List (List Char) :=
  ((fields ',' s).map trim).filter fun item => !item.isEmpty

def endpointOf (item : List Char) : Except Problem Endpoint :=
  match Endpoint.ofChars item with
  | .ok e => .ok e
  | .error p => .error (.badEndpoint .endpoints (String.ofList item) p)

def readEndpoints (lookup : Lookup) (default : List Endpoint) : Except Problem (List Endpoint) :=
  match setting? lookup .endpoints with
  | none => .ok default
  | some s => (endpointItems s).mapM endpointOf

def read (lookup : Lookup) : Except Problem Config := do
  let base : Config := {}
  let idleTimeout ← readMillis lookup .idleTimeout base.idleTimeout
  let retryDelay ← readMillis lookup .retryDelay base.retryDelay
  let submitAttempts ← readAttempts lookup base.submitAttempts
  let submitBackoff ← readMillis lookup .submitBackoff base.submitBackoff
  let endpoints ← readEndpoints lookup base.endpoints
  return { base with
    name := readName lookup base.name
    idleTimeout, retryDelay, submitAttempts, submitBackoff, endpoints }

/-! ## Writing -/

def written (c : Config) : Variable → List Char
  | .workerName => c.name.toList
  | .idleTimeout => Numeral.digits c.idleTimeout.millis
  | .retryDelay => Numeral.digits c.retryDelay.millis
  | .submitAttempts => Numeral.digits c.submitAttempts.toNat
  | .submitBackoff => Numeral.digits c.submitBackoff.millis
  | .endpoints => joined ',' (c.endpoints.map Endpoint.chars)

end Config

end Outbox
