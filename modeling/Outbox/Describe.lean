import Outbox.Job.Message
import Outbox.Job.Payload
import Outbox.Text.Quoted
import Outbox.Worker.Basic

/-! # Descriptions

One line texts of values for whoever looks into a running program: the type's name and its fields,
texts quoted. Jobs show only some of their fields and say so. -/
namespace Outbox
set_option autoImplicit false

namespace Describe
open Text

def braced (name : String) (items : List String) : String :=
  name ++ " \x7b " ++ ", ".intercalate items ++ " \x7d"

def fieldTexts (fields : List (String × String)) : List String :=
  fields.map fun (k, v) => k ++ ": " ++ v

/-- A name and all the fields between braces. -/
def record (name : String) (fields : List (String × String)) : String :=
  braced name (fieldTexts fields)

/-- A name and some of the fields. -/
def partialRecord (name : String) (fields : List (String × String)) : String :=
  braced name (fieldTexts fields ++ [".."])

def wrapped (name inner : String) : String := name ++ "(" ++ inner ++ ")"

def bool (b : Bool) : String := if b then "true" else "false"

def option (inner : Option String) : String :=
  match inner with
  | some s => wrapped "Some" s
  | none => "None"

def jobId (id : JobId) : String := wrapped "JobId" id.text

def attachment (a : Attachment) : String :=
  record "Attachment"
    [("id", quoted a.id), ("mime", quoted a.mime), ("size", toString a.size.toNat)]

def messageJob (j : MessageJob) : String :=
  partialRecord "MessageSendJob"
    [("id", jobId j.id), ("uri", wrapped "MessageUri" (quoted j.uri.text)),
      ("peer", quoted j.peer), ("attachment", option (j.attachment.map attachment)),
      ("is_async", bool j.isAsync)]

def payloadJob (j : PayloadJob) : String :=
  partialRecord "PayloadJob"
    [("id", jobId j.id), ("kind", quoted j.kind), ("is_async", bool j.isAsync)]

def pendingQueue (size : Nat) : String := record "PendingQueue" [("len", toString size)]

def registry (size : Nat) : String := record "ListenerRegistry" [("len", toString size)]

/-- A context is opaque. -/
def context : String := record "JobContext" [("store", quoted "<dyn JobStore>")]

def worker (w : Worker) : String :=
  record "RequestWorker"
    [("name", quoted w.config.name), ("running", bool w.isRunning),
      ("keep_alive", toString w.keepAliveCount.toNat)]

end Describe

end Outbox
