import Outbox.Job.Message
import Outbox.Job.Trial

/-! # Cooperative cancellation

Others attach handles to a message job and cancel them, between its executions and while its
listener is told of an upload. The job looks at the handle attached last, when it starts and, if it
has an attachment, once more after the upload. What was attached and canceled so far, as a plain
list, decides what it finds. Main statement: `sent_once_unless_canceled`. -/
namespace Outbox
set_option autoImplicit false

/-! ## Touches -/

/-- What is done to a job and its handles from outside. -/
inductive Touch where
  | attach (h : Handle)
  | cancel (h : Handle)
  deriving DecidableEq, Repr

namespace Touch

def attached? : Touch → Option Handle
  | .attach h => some h
  | .cancel _ => none

/-- Handles with one serial number share their flag. -/
def cancels (h : Handle) : Touch → Bool
  | .attach _ => false
  | .cancel g => g.serial == h.serial

end Touch

/-- The handle attached last, if one was. -/
def lastAttached (past : List Touch) : Option Handle := (past.filterMap Touch.attached?).getLast?

/-- Nothing that happened stops a job: the handle attached last was never canceled, not even before
it was attached. -/
def clear (past : List Touch) : Bool := (lastAttached past).all fun h => !past.any (·.cancels h)

namespace Trial
variable {past : List Touch} {t u : Trial}

def touch (t : Trial) : Touch → Trial
  | .attach h => { t with job := t.job.attach h }
  | .cancel h => { t with handles := t.handles.cancel h }

def touches (t : Trial) (l : List Touch) : Trial := l.foldl touch t

/-- After the report of an upload during which this was done. -/
def uploaded (t : Trial) (a : Attachment) (uploading : List Touch) : Trial :=
  (t.tell (.upload a.size)).touches uploading

theorem touches_frame (t : Trial) (l : List Touch) :
    (t.touches l).reported = t.reported ∧ (t.touches l).sent = t.sent := by
  induction l generalizing t with
  | nil => exact ⟨rfl, rfl⟩
  | cons x l ih =>
    obtain ⟨hreported, hsent⟩ := ih (t.touch x)
    cases x <;> exact ⟨hreported, hsent⟩

theorem uploaded_frame (t : Trial) (a : Attachment) (uploading : List Touch) :
    (t.uploaded a uploading).reported = .upload a.size :: t.reported ∧
      (t.uploaded a uploading).sent = t.sent :=
  (t.tell (.upload a.size)).touches_frame uploading

/-- The job and the handles are as these touches have left them. -/
structure Bears (t : Trial) (past : List Touch) : Prop where
  execution : t.job.execution = lastAttached past
  canceled : ∀ h, t.handles.isCanceled h = past.any (·.cancels h)
  done : t.job.done = 0

theorem Bears.of_same (h : t.Bears past) (hj : u.job = t.job) (hh : u.handles = t.handles) :
    u.Bears past := by
  refine ⟨?_, fun g => ?_, ?_⟩
  · rw [hj]
    exact h.execution
  · rw [hh]
    exact h.canceled g
  · rw [hj]
    exact h.done

theorem Bears.touch (h : t.Bears past) (x : Touch) : (t.touch x).Bears (past ++ [x]) := by
  have hany : ∀ g, (past ++ [x]).any (·.cancels g) = (past.any (·.cancels g) || x.cancels g) :=
    fun g => by rw [List.any_append, List.any_cons, List.any_nil, Bool.or_false]
  cases x with
  | attach k =>
    refine ⟨?_, fun g => ?_, h.done⟩
    · rw [lastAttached, List.filterMap_append]
      exact List.getLast?_concat.symm
    · rw [hany, ← h.canceled]
      exact (Bool.or_false _).symm
  | cancel k =>
    refine ⟨?_, fun g => ?_, h.done⟩
    · rw [lastAttached, List.filterMap_append]
      exact h.execution.trans (congrArg List.getLast? (List.append_nil _).symm)
    · rw [hany, ← h.canceled]
      refine (Handles.isCanceled_cancel t.handles k g).trans ?_
      rw [Bool.or_comm, Touch.cancels, BEq.comm]

theorem Bears.touches (h : t.Bears past) (l : List Touch) : (t.touches l).Bears (past ++ l) := by
  induction l generalizing t past with
  | nil =>
    rw [List.append_nil]
    exact h
  | cons x l ih =>
    rw [List.append_cons]
    exact ih (h.touch x)

theorem Bears.hand (h : t.Bears past) (r : Request) : (t.hand r).Bears past := h.of_same rfl rfl

theorem Bears.uploaded (h : t.Bears past) (a : Attachment) (uploading : List Touch) :
    (t.uploaded a uploading).Bears (past ++ uploading) :=
  have htold : (t.tell (.upload a.size)).Bears past := h.of_same rfl rfl
  htold.touches uploading

theorem Bears.clear_eq (h : t.Bears past) {b : Bool} (hb : t.isCanceled = b) :
    clear past = !b := by
  subst hb
  unfold Trial.isCanceled JobState.isCanceled clear
  rw [h.execution]
  cases lastAttached past with
  | none => rfl
  | some g => exact congrArg Bool.not (h.canceled g).symm

/-- A handle that has another flag than the one attached last makes no difference. -/
theorem isCanceled_cancel_other (t : Trial) {h : Handle}
    (ho : ∀ g ∈ t.job.execution, g.serial ≠ h.serial) :
    (t.touch (.cancel h)).isCanceled = t.isCanceled := by
  unfold Trial.isCanceled JobState.isCanceled
  change t.job.execution.any (t.handles.cancel h).isCanceled = _
  cases he : t.job.execution with
  | none => rfl
  | some g =>
    have hne : (g.serial == h.serial) = false := beq_eq_false_iff_ne.mpr (ho g he)
    change (t.handles.cancel h).isCanceled g = t.handles.isCanceled g
    rw [Handles.isCanceled_cancel, hne, Bool.false_or]

end Trial

/-! ## Executions -/

namespace MessageJob
variable {m : MessageJob} {uploading : List Touch} {t : Trial} {reply : Request → Outcome}

/-- One execution; `uploading` happens while the listener is told of the upload. -/
def attempt (m : MessageJob) (reply : Request → Outcome) (uploading : List Touch) (t : Trial) :
    Outcome × Trial :=
  m.plan.run (Trial.surroundings reply (·.touches uploading)) t

inductive Attempted (m : MessageJob) (reply : Request → Outcome) (uploading : List Touch)
    (t : Trial) : Outcome × Trial → Prop
  | stopped (hc : t.isCanceled = true) :
      Attempted m reply uploading t (.error .interrupted, t)
  | plain (hc : t.isCanceled = false) (ha : m.attachment = none) :
      Attempted m reply uploading t (reply m.request, t.hand m.request)
  | overtaken (a : Attachment) (hc : t.isCanceled = false) (ha : m.attachment = some a)
      (hu : (t.uploaded a uploading).isCanceled = true) :
      Attempted m reply uploading t (.error .interrupted, t.uploaded a uploading)
  | followed (a : Attachment) (hc : t.isCanceled = false) (ha : m.attachment = some a)
      (hu : (t.uploaded a uploading).isCanceled = false) :
      Attempted m reply uploading t (reply m.request, (t.uploaded a uploading).hand m.request)

theorem run_unlessCanceled (rest : Plan) (onUpload : Trial → Trial) (t : Trial) :
    (Plan.unlessCanceled rest).run (Trial.surroundings reply onUpload) t =
      if t.isCanceled then (.error .interrupted, t)
      else rest.run (Trial.surroundings reply onUpload) t := by
  change (if t.isCanceled then Plan.finish (.error .interrupted) else rest).run _ t = _
  split <;> rfl

theorem attempt_spec (m : MessageJob) (reply : Request → Outcome) (uploading : List Touch)
    (t : Trial) : Attempted m reply uploading t (m.attempt reply uploading t) := by
  unfold attempt plan
  rw [run_unlessCanceled]
  split
  · rename_i hc
    exact .stopped hc
  · rename_i hc
    have hc := Bool.eq_false_iff.mpr hc
    split
    · rename_i a ha
      change Attempted m reply uploading t ((Plan.unlessCanceled _).run _ (t.uploaded a uploading))
      rw [run_unlessCanceled]
      split
      · rename_i hu
        exact .overtaken a hc ha hu
      · rename_i hu
        exact .followed a hc ha (Bool.eq_false_iff.mpr hu)
    · rename_i ha
      exact .plain hc ha

/-! ## Histories -/

inductive Step where
  | touch (x : Touch)
  | execute (reply : Request → Outcome) (uploading : List Touch)

def take (m : MessageJob) (t : Trial) : Step → Trial
  | .touch x => t.touch x
  | .execute reply uploading => (m.attempt reply uploading t).2

/-- A new job after these steps. -/
def after (m : MessageJob) (steps : List Step) : Trial :=
  steps.foldl m.take { handles := {}, job := {} }

/-- The job gets as far as its upload if it has one. -/
def uploads (m : MessageJob) (past : List Touch) : Bool := m.attachment.isSome && clear past

/-- What would be done during an upload that never comes is not done. -/
def remember (m : MessageJob) (past : List Touch) : Step → List Touch
  | .touch x => past ++ [x]
  | .execute _ uploading => if m.uploads past then past ++ uploading else past

/-- What was done to the job and its handles in these steps. -/
def past (m : MessageJob) (steps : List Step) : List Touch := steps.foldl m.remember []

/-- Both looks find nothing; without an attachment there is only the first. -/
def proceeds (m : MessageJob) (past uploading : List Touch) : Bool :=
  clear past && (m.attachment.isNone || clear (past ++ uploading))

/-! ## What an execution leaves -/

/-- What an execution does if its job was touched like this before. -/
structure Executed (m : MessageJob) (reply : Request → Outcome) (uploading before : List Touch)
    (t : Trial) (r : Outcome × Trial) : Prop where
  outcome : r.1 = if m.proceeds before uploading then reply m.request else .error .interrupted
  sent : r.2.sent = (if m.proceeds before uploading then [m.request] else []) ++ t.sent
  reported : r.2.reported =
    (if clear before then m.attachment.toList.map fun a => .upload a.size else []) ++ t.reported
  bears : r.2.Bears (m.remember before (.execute reply uploading))

theorem executed_attempt {before : List Touch} (h : t.Bears before) :
    m.Executed reply uploading before t (m.attempt reply uploading t) := by
  have hspec := attempt_spec m reply uploading t
  generalize m.attempt reply uploading t = r at hspec
  cases hspec with
  | stopped hc =>
    have hclear : clear before = false := h.clear_eq hc
    exact {
      outcome := by simp [proceeds, hclear]
      sent := by simp [proceeds, hclear]
      reported := by simp [hclear]
      bears := by simpa [remember, uploads, hclear] using h }
  | plain hc ha =>
    have hclear : clear before = true := h.clear_eq hc
    exact {
      outcome := by simp [proceeds, hclear, ha]
      sent := by simp [proceeds, hclear, ha, Trial.hand]
      reported := by simp [ha, Trial.hand]
      bears := by simpa [remember, uploads, ha] using h.hand m.request }
  | overtaken a hc ha hu =>
    have hclear : clear before = true := h.clear_eq hc
    have hbears := h.uploaded a uploading
    have hlast : clear (before ++ uploading) = false := hbears.clear_eq hu
    obtain ⟨hreported, hsent⟩ := t.uploaded_frame a uploading
    exact {
      outcome := by simp [proceeds, hlast, ha]
      sent := by simpa [proceeds, hlast, ha] using hsent
      reported := by simpa [hclear, ha] using hreported
      bears := by simpa [remember, uploads, hclear, ha] using hbears }
  | followed a hc ha hu =>
    have hclear : clear before = true := h.clear_eq hc
    have hbears := h.uploaded a uploading
    have hlast : clear (before ++ uploading) = true := hbears.clear_eq hu
    obtain ⟨hreported, hsent⟩ := t.uploaded_frame a uploading
    exact {
      outcome := by simp [proceeds, hclear, hlast]
      sent := by simpa [proceeds, hclear, hlast, Trial.hand] using hsent
      reported := by simpa [hclear, ha, Trial.hand] using hreported
      bears := by simpa [remember, uploads, hclear, ha] using hbears.hand m.request }

theorem bears_take {before : List Touch} (h : t.Bears before) (s : Step) :
    (m.take t s).Bears (m.remember before s) := by
  cases s with
  | touch x => exact h.touch x
  | execute reply uploading => exact (executed_attempt h).bears

theorem bears_steps {before : List Touch} (h : t.Bears before) (steps : List Step) :
    (steps.foldl m.take t).Bears (steps.foldl m.remember before) := by
  induction steps generalizing t before with
  | nil => exact h
  | cons s steps ih => exact ih (bears_take h s)

theorem bears_after (m : MessageJob) (steps : List Step) : (m.after steps).Bears (m.past steps) :=
  bears_steps ⟨rfl, fun _ => rfl, rfl⟩ steps

/-- Whatever was attached, canceled and executed before, and whatever is during the upload: an
execution hands over its request once and answers what the connection does if both looks find
nothing, else it is interrupted and hands over nothing. It reports the upload once if there is one
and the first look found nothing, and it never counts the job as done. No look depends on handles
with another flag than that of the handle attached last. -/
theorem sent_once_unless_canceled (m : MessageJob) (steps : List Step)
    (reply : Request → Outcome) (uploading : List Touch) :
    (m.attempt reply uploading (m.after steps)).1 =
      (if m.proceeds (m.past steps) uploading then reply m.request else .error .interrupted) ∧
    (m.attempt reply uploading (m.after steps)).2.sent =
      (if m.proceeds (m.past steps) uploading then [m.request] else []) ++ (m.after steps).sent ∧
    (m.attempt reply uploading (m.after steps)).2.reported =
      (if clear (m.past steps) then m.attachment.toList.map fun a => .upload a.size else []) ++
        (m.after steps).reported ∧
    (m.attempt reply uploading (m.after steps)).2.job.done = 0 ∧
    ∀ (t : Trial) (h : Handle), (∀ g ∈ t.job.execution, g.serial ≠ h.serial) →
      (t.touch (.cancel h)).isCanceled = t.isCanceled := by
  have hexecuted : m.Executed reply uploading (m.past steps) (m.after steps) _ :=
    executed_attempt (bears_after m steps)
  exact ⟨hexecuted.outcome, hexecuted.sent, hexecuted.reported, hexecuted.bears.done,
    fun t _ => t.isCanceled_cancel_other⟩

def picture : MessageJob :=
  { id := .ofNat 1, uri := ⟨"content://messages/7"⟩ : MessageJob }.withAttachment
    ⟨"photo", "image/png", 2048⟩

/-- A retry attaches its handle while the upload of the first run is reported, and then the first
handle is canceled. -/
def overlapping : List Touch := [.attach ⟨1, "retry"⟩, .cancel ⟨0, "first"⟩]

def acknowledge (_ : Request) : Outcome := .ok ⟨"sent"⟩

/-- The first run sends all the same; once the retry's handle is canceled nothing is sent. -/
theorem first_run_heeds_the_retry :
    (picture.attempt acknowledge overlapping
      (picture.after [.touch (.attach ⟨0, "first"⟩)])).2.sent = [picture.request] ∧
    (picture.attempt acknowledge []
      (picture.after [.touch (.attach ⟨0, "first"⟩), .execute acknowledge overlapping,
        .touch (.cancel ⟨1, "retry"⟩)])).1 = .error .interrupted ∧
    ((picture.after [.touch (.attach ⟨1, "retry"⟩)]).touch (.cancel ⟨0, "first"⟩)).isCanceled =
      false := by
  obtain ⟨-, hsent, -, -, hother⟩ := sent_once_unless_canceled picture
    [.touch (.attach ⟨0, "first"⟩)] acknowledge overlapping
  obtain ⟨hstops, -⟩ := sent_once_unless_canceled picture
    [.touch (.attach ⟨0, "first"⟩), .execute acknowledge overlapping,
      .touch (.cancel ⟨1, "retry"⟩)] acknowledge []
  refine ⟨hsent, hstops, (hother _ ⟨0, "first"⟩ ?_).trans rfl⟩
  rintro g ⟨⟩
  decide

end MessageJob

end Outbox
