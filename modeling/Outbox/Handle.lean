import Outbox.Failure

/-! # Execution handles

A handle stands for one run of a job on an executor of its own, and canceling it asks that run to
stop. Handles are told apart by their serial numbers and not by their names. `Handles` keeps which
of the handles made so far are canceled; a canceled handle stays canceled. -/
namespace Outbox
set_option autoImplicit false

structure Handle where
  serial : Nat
  name : String
  deriving DecidableEq, Repr

structure Handles where
  made : Nat := 0
  canceled : List Nat := []
  deriving DecidableEq, Repr

namespace Handles

def make (hs : Handles) (name : String) : Handle × Handles :=
  (⟨hs.made, name⟩, { hs with made := hs.made + 1 })

def cancel (hs : Handles) (h : Handle) : Handles :=
  { hs with canceled := h.serial :: hs.canceled }

def cancelAll (hs : Handles) (l : List Handle) : Handles := l.foldl cancel hs

def isCanceled (hs : Handles) (h : Handle) : Bool := hs.canceled.contains h.serial

/-- What a run that looks at its handle goes by. -/
def check (hs : Handles) (h : Handle) : Except Failure Unit :=
  if hs.isCanceled h then .error .interrupted else .ok ()

theorem isCanceled_cancel (hs : Handles) (h g : Handle) :
    (hs.cancel h).isCanceled g = (g.serial == h.serial || hs.isCanceled g) :=
  List.contains_cons

theorem isCanceled_cancelAll (hs : Handles) (l : List Handle) (g : Handle) :
    (hs.cancelAll l).isCanceled g = (l.any (·.serial == g.serial) || hs.isCanceled g) := by
  induction l generalizing hs with
  | nil => rfl
  | cons h r ih =>
    rw [cancelAll, List.foldl_cons, ← cancelAll, ih, isCanceled_cancel, List.any_cons]
    rw [BEq.comm (a := g.serial)]
    cases r.any (·.serial == g.serial) <;> cases h.serial == g.serial <;> rfl

theorem made_cancelAll (hs : Handles) (l : List Handle) : (hs.cancelAll l).made = hs.made := by
  induction l generalizing hs with
  | nil => rfl
  | cons h l ih => exact ih (hs.cancel h)

theorem canceled_of_cancelAll {hs : Handles} {l : List Handle} {n : Nat}
    (hn : n ∈ (hs.cancelAll l).canceled) : n ∈ hs.canceled ∨ ∃ h ∈ l, h.serial = n := by
  induction l generalizing hs with
  | nil => exact .inl hn
  | cons h l ih =>
    rcases ih hn with hn | ⟨g, hg, he⟩
    · rcases List.mem_cons.mp hn with rfl | hn
      · exact .inr ⟨h, List.mem_cons_self, rfl⟩
      · exact .inl hn
    · exact .inr ⟨g, List.mem_cons_of_mem h hg, he⟩

end Handles

end Outbox
