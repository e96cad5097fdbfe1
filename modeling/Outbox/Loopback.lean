import Outbox.Endpoint
import Outbox.Request

/-! # The loopback connection

Answers every request itself: while it is connected it acknowledges with transactions numbered
from one, and keeps the requests if it records. It has no other side, so an endpoint is only kept
and starting it only noted. -/
namespace Outbox
set_option autoImplicit false

structure Loopback where
  connected : Bool := true
  started : Bool := false
  endpoint : Option Endpoint := none
  recording : Bool := true
  recorded : List Request := []
  acknowledged : UInt64 := 0

namespace Loopback

def transaction (n : UInt64) : TransactionId := ⟨"loopback-" ++ toString n.toNat⟩

def execute (c : Loopback) (r : Request) : Outcome × Loopback :=
  if c.connected then
    let n := c.acknowledged + 1
    (.ok (transaction n),
      { c with
        acknowledged := n
        recorded := if c.recording then r :: c.recorded else c.recorded })
  else (.error .disconnected, c)

def setConnected (c : Loopback) (b : Bool) : Loopback := { c with connected := b }

def start (c : Loopback) : Loopback := { c with started := true }

def shutdown (c : Loopback) : Loopback := { c with connected := false }

def setEndpoint (c : Loopback) (e : Endpoint) : Loopback := { c with endpoint := some e }

/-- The requests recorded, in the order in which they were executed. -/
def sent (c : Loopback) : List Request := c.recorded.reverse

end Loopback

end Outbox
