import Outbox.Notice

/-! # The logging listener

Writes one record for each notice and votes as it was told to, whatever the failure. -/
namespace Outbox
set_option autoImplicit false

inductive LogLevel where
  | trace
  | debug
  | warn
  deriving DecidableEq, Repr

def LogLevel.name : LogLevel → String
  | .trace => "TRACE"
  | .debug => "DEBUG"
  | .warn => "WARN"

structure LogRecord where
  level : LogLevel
  message : String
  fields : List (String × Json.Value)

structure LoggingListener where
  requeueOnError : Bool := false
  deriving DecidableEq, Repr

namespace LoggingListener

def vote (l : LoggingListener) : Bool := l.requeueOnError

/-- The record of a notice about a run of the job. -/
def record (l : LoggingListener) (id : JobId) (isAsync : Bool) : Notice → LogRecord
  | .starting => ⟨.debug, "job starting", [("job_id", .text id.text), ("is_async", .bool isAsync)]⟩
  | .progress (.download n) =>
    ⟨.trace, "download progress", [("job_id", .text id.text), ("bytes", .number n.toNat)]⟩
  | .progress (.upload n) =>
    ⟨.trace, "upload progress", [("job_id", .text id.text), ("bytes", .number n.toNat)]⟩
  | .done tx => ⟨.debug, "job done", [("job_id", .text id.text), ("tx", .text tx.text)]⟩
  | .error f =>
    ⟨.warn, "job failed",
      [("job_id", .text id.text), ("error", .text f.message), ("requeue", .bool l.vote)]⟩

end LoggingListener

end Outbox
