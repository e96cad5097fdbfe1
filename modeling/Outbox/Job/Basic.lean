import Outbox.Handle
import Outbox.Notice

/-! # Jobs

A job is a unit of outgoing work. What it does when it is executed is its plan, a tree of the
things it asks of its surroundings: report progress, look whether its execution was canceled, hand
a request to the connection. Between two of them a job is a value, so that whatever else happens
in the meantime can be told. -/
namespace Outbox
set_option autoImplicit false

/-- Marks a job as the sending of a message. -/
structure MessageRef where
  uri : MessageUri
  attachment : Option String := none
  deriving DecidableEq, Repr

namespace MessageRef

def withAttachment (m : MessageRef) (id : String) : MessageRef := { m with attachment := some id }

/-- An attachment is delivered apart, so its message may be sent again while it is in flight. -/
def allowsResend (m : MessageRef) : Bool := m.attachment.isSome

end MessageRef

inductive Plan where
  | finish (outcome : Outcome)
  | report (p : Progress) (rest : Plan)
  /-- The rest depends on whether the handle attached last is canceled. -/
  | poll (rest : Bool → Plan)
  /-- The rest depends on what the connection answers. -/
  | send (request : Request) (rest : Outcome → Plan)

namespace Plan

/-- Goes on unless the execution was canceled. -/
def unlessCanceled (rest : Plan) : Plan :=
  .poll fun canceled => if canceled then .finish (.error .interrupted) else rest

/-- Hands over a request and ends with the answer. -/
def sendLast (request : Request) : Plan := .send request .finish

end Plan

structure Job where
  id : JobId
  /-- Whether the job runs on an executor of its own. -/
  isAsync : Bool := false
  message : Option MessageRef := none
  /-- Registered for the time of a run. -/
  listener : Option ListenerName := none
  plan : Plan

/-! ## What a job remembers of its runs -/

structure JobState where
  /-- The handle attached last; every detached run attaches one. -/
  execution : Option Handle := none
  done : Nat := 0
  deriving DecidableEq, Repr

namespace JobState

def attach (s : JobState) (h : Handle) : JobState := { s with execution := some h }

def finish (s : JobState) : JobState := { s with done := s.done + 1 }

/-- A job without a handle is not canceled. -/
def isCanceled (s : JobState) (hs : Handles) : Bool := s.execution.any hs.isCanceled

end JobState

/-- The states of all jobs; a job not heard of is in its first state. -/
structure JobBook where
  states : List (JobId × JobState) := []
  deriving DecidableEq, Repr

namespace JobBook

def get (b : JobBook) (id : JobId) : JobState := (b.states.lookup id).getD {}

def set (b : JobBook) (id : JobId) (s : JobState) : JobBook :=
  ⟨(id, s) :: b.states.filter (·.1 != id)⟩

def attach (b : JobBook) (id : JobId) (h : Handle) : JobBook := b.set id ((b.get id).attach h)

def finish (b : JobBook) (id : JobId) : JobBook := b.set id (b.get id).finish

theorem get_set_self (b : JobBook) (id : JobId) (s : JobState) : (b.set id s).get id = s := by
  simp [get, set]

theorem get_set_other (b : JobBook) {id i : JobId} (s : JobState) (h : i ≠ id) :
    (b.set id s).get i = b.get i := by
  have hb : (i == id) = false := by simpa using h
  have hl : ∀ l : List (JobId × JobState),
      (l.filter (·.1 != id)).lookup i = l.lookup i := by
    intro l
    induction l with
    | nil => rfl
    | cons x r ih =>
      obtain ⟨j, t⟩ := x
      by_cases hj : j = id
      · subst hj
        simp [List.lookup_cons, hb, ih]
      · have hne : (j != id) = true := by simpa using hj
        rw [List.filter_cons, if_pos hne]
        simp only [List.lookup_cons, ih]
  simp [get, set, List.lookup_cons, hb, hl]

end JobBook

end Outbox
