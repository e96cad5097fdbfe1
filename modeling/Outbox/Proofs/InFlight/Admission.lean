import Outbox.Worker.Dispatch

/-! # What a job claims

A job sends a message when the message's uri has an id. `claimFor_sends` says what the claim of such
a job comes to; `claimFor_proceed` and `claimFor_duplicate_iff` read it back from the answer. -/
namespace Outbox
set_option autoImplicit false

/-- The job is a send of the message with this id. -/
def Job.Sends (j : Job) (id : MessageId) : Prop :=
  ∃ m, j.message = some m ∧ m.uri.messageId = .ok id

/-- The job sends a message that may go out again while it is in flight. -/
def Job.mayResend (j : Job) : Bool := j.message.any MessageRef.allowsResend

theorem Job.Sends.unique {j : Job} {id id' : MessageId} (h : j.Sends id) (h' : j.Sends id') :
    id = id' := by
  obtain ⟨m, hm, hid⟩ := h
  obtain ⟨m', hm', hid'⟩ := h'
  cases hm.symm.trans hm'
  exact Except.ok.inj (hid.symm.trans hid')

theorem Job.mayResend_of_message {j : Job} {m : MessageRef} (h : j.message = some m) :
    j.mayResend = m.allowsResend := by
  rw [Job.mayResend, h]
  rfl

/-- A job for an executor that sends the message with the id 7. -/
def Job.sendingSeven (attachment : Option String) (plan : Plan) : Job where
  id := .ofNat 1
  isAsync := true
  message := some { uri := ⟨"content://messages/7"⟩, attachment }
  plan := plan

namespace Worker

variable {s t : InFlight} {job : Job} {id : MessageId}

theorem claimFor_no_message (h : job.message = none) : claimFor s job = .ok (.proceed none, s) := by
  unfold claimFor
  rw [h]

theorem claimFor_bad_uri {m : MessageRef} {p : MessageUri.Problem} (hm : job.message = some m)
    (hp : m.uri.messageId = .error p) : claimFor s job = .error p := by
  unfold claimFor
  simp only [hm, hp]

theorem claimFor_sends (h : job.Sends id) :
    claimFor s job =
      .ok (if id ∈ s.ids then (if job.mayResend then .proceed none else .duplicate, s)
        else (.proceed (some id), ⟨id :: s.ids⟩)) := by
  obtain ⟨m, hm, hid⟩ := h
  have hr : job.mayResend = m.allowsResend := Job.mayResend_of_message hm
  unfold claimFor InFlight.claim
  simp only [hm, hid, hr]
  by_cases hmem : id ∈ s.ids
  · cases ha : m.allowsResend <;> simp [hmem]
  · simp [hmem]

theorem message_cases (job : Job) :
    job.message = none ∨ (∃ id, job.Sends id) ∨
      ∃ m p, job.message = some m ∧ m.uri.messageId = .error p := by
  cases hm : job.message with
  | none => exact .inl rfl
  | some m =>
    cases hid : m.uri.messageId with
    | ok id => exact .inr (.inl ⟨id, m, hm, hid⟩)
    | error p => exact .inr (.inr ⟨m, p, rfl, hid⟩)

theorem uri_of_claimFor_error {p : MessageUri.Problem} (h : claimFor s job = .error p) :
    ∃ m, job.message = some m ∧ m.uri.messageId = .error p := by
  rcases message_cases job with hm | ⟨id, hs⟩ | ⟨m, q, hm, hq⟩
  · rw [claimFor_no_message hm] at h
    cases h
  · rw [claimFor_sends hs] at h
    cases h
  · rw [claimFor_bad_uri hm hq] at h
    cases h
    exact ⟨m, hm, hq⟩

theorem not_sends_of_no_message (h : job.message = none) : ¬ job.Sends id := by
  rintro ⟨m, hm, _⟩
  rw [h] at hm
  cases hm

theorem not_sends_of_claimFor_error {p : MessageUri.Problem} (h : claimFor s job = .error p) :
    ¬ job.Sends id := by
  intro hs
  rw [claimFor_sends hs] at h
  cases h

/-- A job that goes on owns the id of its message or sends none that it could have owned. -/
theorem claimFor_proceed {claim : Option MessageId}
    (h : claimFor s job = .ok (.proceed claim, t)) :
    (∃ id, claim = some id ∧ job.Sends id ∧ id ∉ s.ids ∧ t = ⟨id :: s.ids⟩) ∨
      (claim = none ∧ t = s ∧ ∀ id, job.Sends id → id ∈ s.ids ∧ job.mayResend = true) := by
  rcases message_cases job with hm | ⟨id, hs⟩ | ⟨m, p, hm, hp⟩
  · rw [claimFor_no_message hm] at h
    cases h
    exact .inr ⟨rfl, rfl, fun id hs => absurd hs (not_sends_of_no_message hm)⟩
  · rw [claimFor_sends hs] at h
    split at h
    · rename_i hmem
      split at h
      · rename_i hr
        cases h
        refine .inr ⟨rfl, rfl, fun id' hs' => ?_⟩
        rw [hs'.unique hs]
        exact ⟨hmem, hr⟩
      · cases h
    · rename_i hmem
      cases h
      exact .inl ⟨id, rfl, hs, hmem, rfl⟩
  · rw [claimFor_bad_uri hm hp] at h
    cases h

theorem claimFor_duplicate_iff :
    claimFor s job = .ok (.duplicate, t) ↔
      (∃ id, job.Sends id ∧ id ∈ s.ids ∧ job.mayResend = false) ∧ t = s := by
  constructor
  · intro h
    rcases message_cases job with hm | ⟨id, hs⟩ | ⟨m, p, hm, hp⟩
    · rw [claimFor_no_message hm] at h
      cases h
    · rw [claimFor_sends hs] at h
      split at h
      · rename_i hmem
        split at h
        · cases h
        · rename_i hr
          cases h
          exact ⟨⟨id, hs, hmem, Bool.eq_false_iff.mpr hr⟩, rfl⟩
      · cases h
    · rw [claimFor_bad_uri hm hp] at h
      cases h
  · rintro ⟨⟨id, hs, hmem, hr⟩, rfl⟩
    rw [claimFor_sends hs, if_pos hmem, hr]
    rfl

end Worker

end Outbox
