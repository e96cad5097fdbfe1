/-! # What can go wrong

`Invalid` is a text that is no value of its type. `Failure` is what ends the execution of a job
without a transaction; listeners are told of it and vote on a retry. `Refusal` is why a worker does
not take a job. Each of them has one text, given by its `message`. -/
namespace Outbox
set_option autoImplicit false

/-- A malformed value or identifier, with what is wrong about it. -/
inductive Invalid where
  | value (reason : String)
  | identifier (reason : String)
  deriving DecidableEq, Repr

def Invalid.message : Invalid → String
  | .value reason => "validation failed: " ++ reason
  | .identifier reason => "invalid identifier: " ++ reason

inductive Failure where
  | disconnected
  | rejected (reason : String)
  | io (reason : String)
  | invalidResource (reason : String)
  | interrupted
  deriving DecidableEq, Repr

namespace Failure

def message : Failure → String
  | disconnected => "connection lost"
  | rejected reason => "request rejected: " ++ reason
  | io reason => "io error: " ++ reason
  | invalidResource reason => "invalid resource: " ++ reason
  | interrupted => "execution interrupted"

def isInterrupted : Failure → Bool
  | interrupted => true
  | _ => false

/-- A job whose message cannot be identified fails like one whose resource is gone. -/
def ofInvalid (e : Invalid) : Failure := .invalidResource e.message

end Failure

/-- Why a submission was refused. -/
inductive Refusal where
  | interrupted
  | notReady
  deriving DecidableEq, Repr

def Refusal.message : Refusal → String
  | .interrupted => "request worker has been interrupted"
  | .notReady => "request worker did not become ready"

end Outbox
