import Outbox.Job.Basic
import Outbox.Store

/-! # Message jobs

Sends one stored message to a peer. A message job is canceled as soon as its message is gone from
the store. Its attachment, if it has one, is uploaded ahead of the message: the upload reports its
size once, between two looks at the handle. -/
namespace Outbox
set_option autoImplicit false

structure Attachment where
  id : String
  mime : String
  size : UInt64
  deriving DecidableEq, Repr

structure MessageJob where
  id : JobId
  uri : MessageUri
  peer : String := ""
  body : String := ""
  attachment : Option Attachment := none
  isAsync : Bool := false
  listener : Option ListenerName := none
  deriving DecidableEq, Repr

namespace MessageJob
open Json

/-- A job with an attachment runs on its own executor unless that is changed afterwards. -/
def withAttachment (j : MessageJob) (a : Attachment) : MessageJob :=
  { j with attachment := some a, isAsync := true }

def ref (j : MessageJob) : MessageRef :=
  { uri := j.uri, attachment := j.attachment.map (·.id) }

def isCanceled (j : MessageJob) (s : Store) : Bool := !s.contains j.uri

def attachmentJson : Option Attachment → Value
  | none => .null
  | some a => .ofMembers [("id", .text a.id), ("mime", .text a.mime), ("size", .number a.size.toNat)]

def requestKind : String := "message.send"

def request (j : MessageJob) : Request :=
  { jobId := j.id
    kind := requestKind
    payload := .ofMembers [
      ("uri", .text j.uri.text),
      ("to", .text j.peer),
      ("body", .text j.body),
      ("attachment", attachmentJson j.attachment)] }

def plan (j : MessageJob) : Plan :=
  let sending := Plan.sendLast j.request
  .unlessCanceled <|
    match j.attachment with
    | some a => .report (.upload a.size) (.unlessCanceled sending)
    | none => sending

def toJob (j : MessageJob) : Job :=
  { id := j.id, isAsync := j.isAsync, message := some j.ref, listener := j.listener, plan := j.plan }

end MessageJob

end Outbox
