import Outbox.Job.Message
import Outbox.Proofs.Runs.Finish
import Outbox.Proofs.Runs.Follow
import Outbox.Proofs.Shutdown.Aftermath

/-! # Uploads and the shutdown

A shutdown cancels the handles of the live executors, and an upload looks at the handle that its job
has at that time. A job has one handle, the one made last for it. While two executors of one job are
live, the handle is that of the later one; once that one has ended, or when it could not be started,
a shutdown does not cancel its handle, and does not reach the earlier one. Main statement:
`upload_interrupted_unless_superseded`. -/
namespace Outbox
set_option autoImplicit false

namespace MessageJob

/-- What is left to do once the upload is reported. -/
def afterUpload (m : MessageJob) : Plan := .unlessCanceled (.sendLast m.request)

/-- A run of the job has not yet passed the look at its handle that follows the report of the
upload. -/
inductive Uploading (m : MessageJob) (a : Attachment) : Phase → Prop
  | ready : Uploading m a .ready
  | starting (rest : List ListenerName) : Uploading m a (.starting rest)
  | checking : Uploading m a (.working m.plan)
  | announcing : Uploading m a (.working (.report (.upload a.size) m.afterUpload))
  | reporting (rest : List ListenerName) :
      Uploading m a (.reporting (.upload a.size) rest m.afterUpload)
  | rechecking : Uploading m a (.working m.afterUpload)

/-- A run of the job has passed it, or has failed on the way. -/
inductive PastUpload (m : MessageJob) : Phase → Prop
  | handing : PastUpload m (.working (.sendLast m.request))
  | sending : PastUpload m (.sending .finish)
  | finishing (o : Outcome) : PastUpload m (.working (.finish o))
  | completing (tx : TransactionId) (rest : List ListenerName) : PastUpload m (.completing tx rest)
  | failing (f : Failure) : PastUpload m (.failing f)
  | blaming (f : Failure) (rest : List ListenerName) (vote : Bool) :
      PastUpload m (.blaming f rest vote)
  | voting (l : ListenerName) (f : Failure) (rest : List ListenerName) (vote : Bool) :
      PastUpload m (.voting l f rest vote)
  | requeueing : PastUpload m .requeueing
  | exiting : PastUpload m .exiting

end MessageJob

namespace Worker
open MessageJob

variable {config : Config} {w v : Worker} {l : Label} {r first : Run} {m : MessageJob}
  {a : Attachment}

/-! ## Handles -/

/-- The handle that the job has is that of a live executor. -/
def HandleLive (w : Worker) (id : JobId) : Prop :=
  ∃ h, (w.book.get id).execution = some h ∧ ∃ s ∈ w.slots, s.2.serial = h.serial

/-- The run has seen its own handle uncanceled, and the one that its job has now is not canceled
either and not that of a live executor. -/
def Superseded (w : Worker) (r : Run) : Prop :=
  r.phase ≠ .ready ∧ ¬ w.HandleLive r.job.id ∧ w.jobCanceled r = false

/-- Nobody cancels the handle that the job has. -/
def Spares (w : Worker) (ls : List Label) (id : JobId) : Prop :=
  ∀ g, .cancel g ∈ ls → ∀ h ∈ (w.book.get id).execution, g.serial ≠ h.serial

theorem jobCanceled_shutdown (h : Reachable config w) (hi : w.interrupted = false) (r : Run) :
    w.shutdown.jobCanceled r = true ↔ w.HandleLive r.job.id ∨ w.jobCanceled r = true := by
  have hlive : w.tickets.live = w.slots := (roster_sound h).live_eq hi
  have hcanceled : ∀ g : Handle, (w.handles.cancelAll (w.tickets.live.map Prod.snd)).isCanceled g
      = true ↔ (∃ s ∈ w.slots, s.2.serial = g.serial) ∨ w.handles.isCanceled g = true := by
    intro g
    rw [Handles.isCanceled_cancelAll, hlive, Bool.or_eq_true]
    simp
  have hnow : w.jobCanceled r = true ↔
      ∃ g, (w.book.get r.job.id).execution = some g ∧ w.handles.isCanceled g = true :=
    Option.any_eq_true _ _
  rw [shutdown_eq hi, hnow, HandleLive, ← exists_or]
  change ((w.book.get r.job.id).execution.any
    (w.handles.cancelAll (w.tickets.live.map Prod.snd)).isCanceled) = true ↔ _
  rw [Option.any_eq_true]
  simp only [hcanceled, and_or_left]

theorem jobCanceled_cancel (w : Worker) (g : Handle) (r : Run) :
    (w.cancel g).jobCanceled r = true ↔
      w.jobCanceled r = true ∨ ∃ h ∈ (w.book.get r.job.id).execution, g.serial = h.serial := by
  change (w.book.get r.job.id).execution.any (w.handles.cancel g).isCanceled = true ↔
    (w.book.get r.job.id).execution.any w.handles.isCanceled = true ∨ _
  cases (w.book.get r.job.id).execution with
  | none => simp
  | some h =>
    simp only [Option.any_some, Handles.isCanceled_cancel, Bool.or_eq_true, beq_iff_eq,
      Option.mem_some_iff, exists_eq_left']
    rw [or_comm, eq_comm (a := h.serial)]

theorem execution_finish (b : JobBook) (id i : JobId) :
    ((b.finish id).get i).execution = (b.get i).execution := by
  by_cases hi : i = id
  · subst hi
    rw [JobBook.finish, JobBook.get_set_self]
    rfl
  · rw [JobBook.finish, JobBook.get_set_other b _ hi]

/-- All handles are as canceled as before, and every job has the handle that it had. -/
structure SameHandles (w v : Worker) : Prop where
  handles : v.handles = w.handles
  execution : ∀ id, (v.book.get id).execution = (w.book.get id).execution

theorem SameHandles.of_eq (hh : v.handles = w.handles) (hb : v.book = w.book) :
    SameHandles w v :=
  ⟨hh, fun _ => by rw [hb]⟩

theorem SameHandles.jobCanceled (h : SameHandles w v) (r : Run) :
    v.jobCanceled r = w.jobCanceled r := by
  unfold Worker.jobCanceled JobState.isCanceled
  rw [h.handles, h.execution]

theorem SameHandles.of_quiet {u : Worker} (h : Quiet u v) (hh : u.handles = w.handles)
    (hb : u.book = w.book) : SameHandles w v := by
  obtain ⟨⟩ := h
  exact .of_eq hh hb

theorem sameHandles_followPlan (w : Worker) (r : Run) (plan : Plan) :
    SameHandles w (w.followPlan r plan) := by
  cases plan with
  | finish outcome =>
    cases outcome with
    | ok tx => exact ⟨rfl, fun id => execution_finish w.book r.job.id id⟩
    | error f => exact .of_eq rfl rfl
  | report | poll | send => exact .of_eq rfl rfl

theorem sameHandles_look (w : Worker) (s : Submission) : SameHandles w (w.look s).2 := by
  have hspec := look_spec w s
  generalize (w.look s).2 = v at hspec
  cases hspec with
  | quiet hv => exact .of_quiet hv rfl rfl
  | accepted => exact .of_eq rfl rfl

theorem sameHandles_exit (w : Worker) (r : Run) : SameHandles w (w.exit r) := by
  obtain ⟨listeners, he⟩ := exit_spec w r
  obtain ⟨tickets, keepAlive, hquiet⟩ := freed_spec w r
  rw [he]
  have hfreed : SameHandles w (w.freed r) := .of_quiet hquiet rfl rfl
  exact ⟨hfreed.handles, hfreed.execution⟩

theorem sameHandles_advance {reply : Reply} (h : w.advanceRun? r reply = some v) :
    SameHandles w v := by
  unfold advanceRun? at h
  split at h
  case h_1 =>
    cases h
    unfold beginRun
    split <;> exact .of_eq rfl rfl
  case h_4 =>
    cases h
    exact sameHandles_followPlan w r _
  case h_10 =>
    cases h
    unfold fail
    split <;> exact .of_eq rfl rfl
  case h_11 =>
    cases h
    unfold count
    split <;> exact .of_eq rfl rfl
  case h_14 =>
    split at h
    · cases h
      have hlook := sameHandles_look w
        { job := r.job, delay := w.config.retryDelay, attempts := w.config.submitAttempts }
      exact ⟨hlook.handles, hlook.execution⟩
    · cases h
  case h_15 =>
    cases h
    exact sameHandles_exit w r
  case h_16 => cases h
  all_goals
    cases h
    exact .of_eq rfl rfl

/-- In an interrupted worker no job gets a handle, and only who has a handle cancels it. -/
theorem sameHandles_step (hi : w.interrupted = true) (h : w.step l = some v) :
    SameHandles w v ∨ ∃ g, l = .cancel g ∧ v = w.cancel g := by
  cases step_footprint h with
  | quiet _ hv | hold hv | release hv => exact .inl (.of_quiet hv rfl rfl)
  | look s _ hv =>
    cases hv with
    | quiet hv => exact .inl (.of_quiet hv rfl rfl)
    | accepted => exact .inl (.of_eq rfl rfl)
  | cancel g => exact .inr ⟨g, rfl, rfl⟩
  | shutdown hopen => cases hopen.symm.trans hi
  | start | join | enter | climb | prepare | close => exact .inl (.of_eq rfl rfl)
  | dispatch view job hp hd =>
    cases hd with
    | closed => exact .inl (.of_eq rfl rfl)
    | duplicate _ ho | refused _ _ _ ho | inline _ _ _ _ ho | detached _ _ _ _ ho
    | unstarted _ _ ho => cases (not_interrupted_of_isOpen ho).symm.trans hi
  | advance r reply _ ha => exact .inl (sameHandles_advance ha)

/-! ## One stride of an upload -/

/-- Up to the look at its handle an upload sends nothing. What it does then depends on that handle
alone, and whether it starts on its own. -/
theorem uploading_stride (hj : r.job = m.toJob) (ha : m.attachment = some a)
    (hu : Uploading m a r.phase) {reply : Reply} {notice : Option Notice} {events : List Event}
    {p : Phase} (hs : Stride w r reply notice events p) :
    (∀ request, .sent r.id request ∉ events) ∧
      ((Uploading m a p ∧ p ≠ .ready ∧ (r.phase = .ready → w.runCanceled r = false)) ∨
        (p = .failing .interrupted ∧ r.phase = .ready) ∨
        (p = .working (.finish (.error .interrupted)) ∧ w.jobCanceled r = true) ∨
        (p = .working (.sendLast m.request) ∧ r.phase ≠ .ready ∧ w.jobCanceled r = false)) := by
  cases hs with
  | cancel hp => exact ⟨by simp, .inr (.inl ⟨rfl, hp⟩)⟩
  | start hp hc => exact ⟨by simp, .inl ⟨.starting _, nofun, fun _ => hc⟩⟩
  | tellStart hp =>
    refine ⟨by simp, .inl ⟨.starting _, nofun, fun hr => ?_⟩⟩
    cases hp.symm.trans hr
  | execute hp =>
    have hplan : r.job.plan = m.plan := hj ▸ rfl
    refine ⟨by simp, .inl ⟨hplan ▸ .checking, nofun, fun hr => ?_⟩⟩
    cases hp.symm.trans hr
  | report hp =>
    rw [hp] at hu
    cases hu with
    | announcing =>
      refine ⟨by simp, .inl ⟨.reporting _, nofun, fun hr => ?_⟩⟩
      cases hp.symm.trans hr
  | tellProgress hp =>
    rw [hp] at hu
    cases hu with
    | reporting =>
      refine ⟨by simp, .inl ⟨.reporting _, nofun, fun hr => ?_⟩⟩
      cases hp.symm.trans hr
  | resume hp =>
    rw [hp] at hu
    cases hu with
    | reporting =>
      refine ⟨by simp, .inl ⟨.rechecking, nofun, fun hr => ?_⟩⟩
      cases hp.symm.trans hr
  | poll hp =>
    rw [hp] at hu
    generalize hpoll : w.jobCanceled r = canceled
    cases hu with
    | checking =>
      cases canceled with
      | true => exact ⟨by simp, .inr (.inr (.inl ⟨rfl, rfl⟩))⟩
      | false =>
        rw [ha]
        refine ⟨by simp, .inl ⟨.announcing, nofun, fun hr => ?_⟩⟩
        cases hp.symm.trans hr
    | rechecking =>
      cases canceled with
      | true => exact ⟨by simp, .inr (.inr (.inl ⟨rfl, rfl⟩))⟩
      | false =>
        refine ⟨by simp, .inr (.inr (.inr ⟨rfl, fun hr => ?_, rfl⟩))⟩
        cases hp.symm.trans hr
  | send hp | answer _ hp | finish hp | giveUp hp | tellDone hp | succeed hp | abandon hp | blame hp
  | tellError hp | vote _ hp | count hp =>
    rw [hp] at hu
    cases hu

theorem pastUpload_stride (hu : PastUpload m r.phase) {reply : Reply} {notice : Option Notice}
    {events : List Event} {p : Phase} (hs : Stride w r reply notice events p) :
    PastUpload m p := by
  cases hs with
  | cancel hp | start hp | tellStart hp | execute hp | report hp | tellProgress hp | resume hp
  | poll hp =>
    rw [hp] at hu
    cases hu
  | send hp =>
    rw [hp] at hu
    cases hu
    exact .sending
  | answer o hp =>
    rw [hp] at hu
    cases hu
    exact .finishing o
  | finish | tellDone => exact .completing _ _
  | giveUp => exact .failing _
  | succeed | abandon => exact .exiting
  | blame | vote => exact .blaming _ _ _
  | tellError => exact .voting _ _ _ _
  | @count f vote =>
    cases vote with
    | true => exact .requeueing
    | false => exact .exiting

/-- A live executor of the job is on its way to the look at the handle, and has sent nothing, or it
is past it. -/
theorem Walk.uploading {h : List Moment} {es : List Event} (hw : Walk h first r es)
    (hf : first.Fresh) (hk : first.kind.onLoop = false) (hj : first.job = m.toJob)
    (ha : m.attachment = some a) :
    (Uploading m a r.phase ∧ ∀ request, .sent r.id request ∉ es) ∨ PastUpload m r.phase := by
  induction hw with
  | begin =>
    cases hf with
    | refused hkind =>
      rw [hkind] at hk
      cases hk
    | ready _ hp => exact .inl ⟨hp ▸ .ready, fun _ => List.not_mem_nil⟩
  | @pace moment r reply before events p hw _ _ _ hs ih =>
    have hjob : r.job = m.toJob := by
      obtain ⟨q, rfl⟩ := hw.same
      exact hj
    cases hs with
    | requeue => exact .inr .exiting
    | stride hs =>
      rcases ih with ⟨hu, hnone⟩ | hpast
      · obtain ⟨hnew, hnext⟩ := uploading_stride hjob ha hu hs
        rcases hnext with ⟨hu', _⟩ | ⟨rfl, _⟩ | ⟨rfl, _⟩ | ⟨rfl, _⟩
        · refine .inl ⟨hu', fun request hmem => ?_⟩
          rcases List.mem_append.mp hmem with hmem | hmem
          · exact hnone request hmem
          · exact hnew request hmem
        · exact .inr (.failing _)
        · exact .inr (.finishing _)
        · exact .inr .handing
      · exact .inr (pastUpload_stride hpast hs)

/-! ## After the shutdown -/

/-- The worker is interrupted, and if the handle that the run's job has was canceled it still is. -/
def Silenced (r : Run) (canceled : Bool) (w : Worker) : Prop :=
  w.interrupted = true ∧ (canceled = true → w.jobCanceled r = true)

theorem Silenced.step {canceled : Bool} (h : Silenced r canceled w) (hs : w.step l = some v) :
    Silenced r canceled v := by
  refine ⟨interrupted_of_step h.1 hs, fun hc => ?_⟩
  rcases sameHandles_step h.1 hs with hsame | ⟨g, _, rfl⟩
  · rw [hsame.jobCanceled]
    exact h.2 hc
  · exact (jobCanceled_cancel w g r).mpr (.inl (h.2 hc))

/-- The worker is interrupted, and the run's job has this handle, which is not canceled. -/
def Unreached (r : Run) (handle : Option Handle) (w : Worker) : Prop :=
  w.interrupted = true ∧ (w.book.get r.job.id).execution = handle ∧ w.jobCanceled r = false

theorem Unreached.step {handle : Option Handle} (h : Unreached r handle w)
    (hl : ∀ g, l = .cancel g → ∀ own ∈ handle, g.serial ≠ own.serial) (hs : w.step l = some v) :
    Unreached r handle v := by
  obtain ⟨hi, hown, hfree⟩ := h
  refine ⟨interrupted_of_step hi hs, ?_⟩
  rcases sameHandles_step hi hs with hsame | ⟨g, rfl, rfl⟩
  · exact ⟨(hsame.execution _).trans hown, (hsame.jobCanceled r).trans hfree⟩
  · refine ⟨hown, Bool.eq_false_iff.mpr fun hc => ?_⟩
    rcases (jobCanceled_cancel w g r).mp hc with hc | ⟨own, hmem, hserial⟩
    · cases hfree.symm.trans hc
    · exact hl g rfl own (hown ▸ hmem) hserial

/-- The run is stopped by its own handle or by the one that its job has, or was. -/
def Caught (m : MessageJob) (a : Attachment) (n : Nat) (canceled : Bool) (p : Phase)
    (es : List Event) : Prop :=
  (∀ request, .sent n request ∉ es) ∧
    ((Uploading m a p ∧ (p = .ready ∨ canceled = true)) ∨
      p = .working (.finish (.error .interrupted)) ∨ p = .failing .interrupted ∨
      (p = .exiting ∧ .abandoned n .interrupted ∈ es))

theorem keeps_caught (hk : r.kind.onLoop = false) (hj : r.job = m.toJob)
    (ha : m.attachment = some a) (canceled : Bool) :
    Keeps config r (Silenced r canceled) (Caught m a r.id canceled) := by
  rintro u q reply events p es hu ⟨hi, hjob⟩ hq ⟨phase, rfl⟩ hpace ⟨hnone, hp⟩
  have hown := executor_canceled hu hi hq hk
  cases hpace with
  | requeue hphase =>
    cases hphase
    rcases hp with ⟨hup, _⟩ | hp | hp | ⟨hp, _⟩
    · cases hup
    all_goals cases hp
  | @stride _ notice _ _ hs =>
    rcases hp with ⟨hup, hcause⟩ | rfl | rfl | ⟨rfl, _⟩
    · obtain ⟨hnew, hnext⟩ := uploading_stride (r := { r with phase }) hj ha hup hs
      refine ⟨fun request hmem => ?_, ?_⟩
      · rcases List.mem_append.mp hmem with hmem | hmem
        · exact hnone request hmem
        · exact hnew request hmem
      rcases hnext with ⟨hup', hready, hstart⟩ | ⟨rfl, _⟩ | ⟨rfl, _⟩ | ⟨_, hready, hfree⟩
      · refine .inl ⟨hup', .inr ?_⟩
        rcases hcause with hcause | hcause
        · cases hown.symm.trans (hstart hcause)
        · exact hcause
      · exact .inr (.inr (.inl rfl))
      · exact .inr (.inl rfl)
      · rcases hcause with hcause | hcause
        · exact absurd hcause hready
        · cases hfree.symm.trans (hjob hcause)
    · cases hs with
      | giveUp hp =>
        cases hp
        exact ⟨by simpa using hnone, .inr (.inr (.inl rfl))⟩
      | answer _ hp | vote _ hp => cases hp
      | _ hp => cases hp
    · cases hs with
      | abandon hp =>
        cases hp
        exact ⟨by simpa using hnone, .inr (.inr (.inr ⟨rfl, by simp⟩))⟩
      | blame hp hh =>
        rw [hushes, hown, Bool.true_or, Bool.true_or] at hh
        cases hh
      | answer _ hp | vote _ hp => cases hp
      | _ hp => cases hp
    · cases hs.early

/-- The run passes the look at the handle, and then it hands its request over. -/
def Slipped (m : MessageJob) (a : Attachment) (n : Nat) (p : Phase) (es : List Event) : Prop :=
  (Uploading m a p ∧ p ≠ .ready) ∨ p = .working (.sendLast m.request) ∨ .sent n m.request ∈ es

theorem keeps_slipped (hj : r.job = m.toJob) (ha : m.attachment = some a)
    (handle : Option Handle) : Keeps config r (Unreached r handle) (Slipped m a r.id) := by
  rintro u q reply events p es hu ⟨hi, _, hjob⟩ hq ⟨phase, rfl⟩ hpace hp
  rcases hp with ⟨hup, hready⟩ | rfl | hsent
  · cases hpace with
    | requeue hphase =>
      cases hphase
      cases hup
    | stride hs =>
      rcases (uploading_stride (r := { r with phase }) hj ha hup hs).2 with
        ⟨hup', hready', _⟩ | ⟨_, hr⟩ | ⟨_, hc⟩ | ⟨rfl, _⟩
      · exact .inl ⟨hup', hready'⟩
      · exact absurd hr hready
      · cases hjob.symm.trans hc
      · exact .inr (.inl rfl)
  · cases hpace with
    | requeue hphase => cases hphase
    | stride hs =>
      cases hs with
      | send hp =>
        cases hp
        exact .inr (.inr (List.mem_append_right _ List.mem_cons_self))
      | answer _ hp | vote _ hp => cases hp
      | _ hp => cases hp
  · exact .inr (.inr (List.mem_append_left _ hsent))

theorem caught_exiting {n : Nat} {canceled : Bool} {es : List Event}
    (h : Caught m a n canceled .exiting es) : .abandoned n .interrupted ∈ es := by
  rcases h.2 with ⟨hup, _⟩ | hp | hp | ⟨_, hmem⟩
  · cases hup
  · cases hp
  · cases hp
  · exact hmem

theorem slipped_exiting {n : Nat} {es : List Event} (h : Slipped m a n .exiting es) :
    .sent n m.request ∈ es := by
  rcases h with ⟨hup, _⟩ | hp | hsent
  · cases hup
  · cases hp
  · exact hsent

/-- Until it has passed the look at its handle a run of the job has sent nothing. -/
theorem not_sent_of_uploading (h : Reachable config w) (hr : r ∈ w.runs)
    (hk : r.kind.onLoop = false) (hj : r.job = m.toJob) (ha : m.attachment = some a)
    (hu : Uploading m a r.phase) (request : Request) : .sent r.id request ∉ w.chronicle r.id := by
  obtain ⟨ms, hms⟩ := h
  obtain ⟨first, hf, hw⟩ := walk_of_live hms hr
  obtain ⟨p, rfl⟩ := hw.same
  rcases hw.uploading hf hk hj ha with ⟨_, hnone⟩ | hpast
  · exact hnone request
  · cases hu <;> cases hpast

/-- When an executor is on its way to the look at its handle that follows the report of the upload,
and the worker is shut down, then it hands no request over and ends interrupted, unless it has
started and the handle that its job has is neither canceled nor that of a live executor; then it
passes the look and hands its request over before it ends, if nobody cancels that handle meanwhile.
In both cases it can always come to its end. -/
theorem upload_interrupted_unless_superseded (h : Reachable config w) (hi : w.interrupted = false)
    (hr : r ∈ w.runs) (hk : r.kind.onLoop = false) (hj : r.job = m.toJob)
    (ha : m.attachment = some a) (hu : Uploading m a r.phase) {u : Worker}
    (hshut : w.step .shutdown = some u) {ls : List Label} (hs : u.steps ls = some v) :
    (¬ w.Superseded r → (∀ request, .sent r.id request ∉ v.chronicle r.id) ∧
      ((∀ q ∈ v.runs, q.id ≠ r.id) → .abandoned r.id .interrupted ∈ v.chronicle r.id)) ∧
    (w.Superseded r → w.Spares ls r.job.id → (∀ q ∈ v.runs, q.id ≠ r.id) →
      .sent r.id m.request ∈ v.chronicle r.id) ∧
    ∃ ms v', v.steps ms = some v' ∧ ∀ q ∈ v'.runs, q.id ≠ r.id := by
  have hreach := h.step hshut
  have hnone := not_sent_of_uploading h hr hk hj ha hu
  cases hshut
  have hinterrupted := shutdown_interrupted w
  have hlive := jobCanceled_shutdown h hi r
  have hmem : r ∈ w.shutdown.runs := (runs_shutdown w).symm ▸ hr
  have hsame : w.shutdown.chronicle r.id = w.chronicle r.id := by
    rw [shutdown_eq hi]
    exact chronicle_of_aside rfl (aside_farewell w) r.id
  have hsilenced : Silenced r (w.shutdown.jobCanceled r) w.shutdown := ⟨hinterrupted, id⟩
  refine ⟨fun hnot => ?_, ?_, ?_⟩
  · have hcause : r.phase = .ready ∨ w.shutdown.jobCanceled r = true := by
      by_cases hready : r.phase = .ready
      · exact .inl hready
      · refine .inr (not_not.mp fun hfree => hnot ⟨hready, ?_⟩)
        obtain ⟨hdead, hnow⟩ := not_or.mp (mt hlive.mpr hfree)
        exact ⟨hdead, Bool.eq_false_iff.mpr hnow⟩
    have hstart : Caught m a r.id (w.shutdown.jobCanceled r) r.phase (w.shutdown.chronicle r.id) :=
      ⟨hsame ▸ hnone, .inl ⟨hu, hcause⟩⟩
    cases follow (keeps_caught hk hj ha _) (fun _ _ _ _ _ hsil hstep => hsil.step hstep) hreach
      hsilenced hmem hstart hs with
    | live q hq hsame hcaught =>
      exact ⟨hcaught.1, fun hgone => absurd hsame.id_eq (hgone q hq)⟩
    | ended es _ _ hcaught hc =>
      rw [hc]
      refine ⟨fun request hsent => ?_, fun _ => List.mem_append_left _ (caught_exiting hcaught)⟩
      rcases List.mem_append.mp hsent with hsent | hsent
      · exact hcaught.1 request hsent
      · cases List.mem_singleton.mp hsent
  · rintro ⟨hready, hdead, hnow⟩ hspares hgone
    have hfree : w.shutdown.jobCanceled r = false :=
      Bool.eq_false_iff.mpr (mt hlive.mp (not_or.mpr ⟨hdead, Bool.eq_false_iff.mp hnow⟩))
    have hbook : w.shutdown.book = w.book := by
      rw [shutdown_eq hi]
      rfl
    have hmissed : Unreached r (w.book.get r.job.id).execution w.shutdown :=
      ⟨hinterrupted, by rw [hbook], hfree⟩
    have hstart : Slipped m a r.id r.phase (w.shutdown.chronicle r.id) := .inl ⟨hu, hready⟩
    cases follow (keeps_slipped hj ha _)
      (fun _ _ hl _ _ hmiss hstep => hmiss.step (fun g he => hspares g (he ▸ hl)) hstep) hreach
      hmissed hmem hstart hs with
    | live q hq hsame => exact absurd hsame.id_eq (hgone q hq)
    | ended es _ _ hslipped hc =>
      rw [hc]
      exact List.mem_append_left _ (slipped_exiting hslipped)
  · exact can_end_of_interrupted (hreach.steps hs) (interrupted_of_steps hinterrupted hs) r.id

/-! ## An upload that goes out after the shutdown -/

def photo : Attachment := ⟨"photo", "image/png", 2048⟩

def photoJob : MessageJob where
  id := .ofNat 1
  uri := ⟨"content://messages/7"⟩
  attachment := some photo
  isAsync := true

/-- One executor of the job reports its upload, and another that was launched after it is done. -/
def overtaken : List Label :=
  opening ++ launching photoJob.toJob ++ advancing 1 4 ++ launching photoJob.toJob ++
    advancing 2 7 ++ [.advance 2 (.outcome (.ok ⟨"sent"⟩))] ++ advancing 2 3

/-- The first executor goes on to its end. -/
def goesOut : List Label :=
  advancing 1 3 ++ [.advance 1 (.outcome (.ok ⟨"sent"⟩))] ++ advancing 1 3

/-- The executor that was in the middle of its upload hands its request over after the shutdown. -/
theorem overtaken_upload_goes_out :
    ∃ w u v r, Reachable {} w ∧ w.runs = [r] ∧
      r.phase = .reporting (.upload 2048) [] photoJob.afterUpload ∧
      w.step .shutdown = some u ∧ u.steps goesOut = some v ∧ v.runs = [] ∧
      .sent r.id photoJob.request ∉ w.chronicle r.id ∧
      .sent r.id photoJob.request ∈ v.chronicle r.id := by
  have h : ∃ w u v r, Reachable {} w ∧ w.runs = [r] ∧
      r.phase = .reporting (.upload 2048) [] photoJob.afterUpload ∧ w.interrupted = false ∧
      r.kind.onLoop = false ∧ r.job = photoJob.toJob ∧
      w.slots.map (·.2.serial) = [0] ∧
      (w.book.get r.job.id).execution.map Handle.serial = some 1 ∧ w.jobCanceled r = false ∧
      w.step .shutdown = some u ∧ u.steps goesOut = some v ∧ v.runs = [] ∧
      w.chronicle r.id = [.reported 1 (.upload 2048)] :=
    ⟨_, _, _, _, ⟨overtaken, rfl⟩, rfl, rfl, rfl, rfl, rfl, rfl, rfl, rfl, rfl, rfl, rfl,
      rfl⟩
  obtain ⟨w, u, v, r, hw, hruns, hp, hi, hk, hj, hslots, hslot, hfree, hshut, hs, hgone,
    hbefore⟩ := h
  have hr : r ∈ w.runs := hruns ▸ List.mem_cons_self
  have hup : Uploading photoJob photo r.phase := hp ▸ .reporting []
  have hdead : ¬ w.HandleLive r.job.id := by
    rintro ⟨g, hg, s, hs, hserial⟩
    have hmem : s.2.serial ∈ w.slots.map (·.2.serial) := List.mem_map_of_mem hs
    rw [hslots, List.mem_singleton] at hmem
    rw [hg, Option.map_some, Option.some.injEq] at hslot
    omega
  have hready : r.phase ≠ .ready := by
    rw [hp]
    exact nofun
  refine ⟨w, u, v, r, hw, hruns, hp, hshut, hs, hgone, by simp [hbefore], ?_⟩
  have hnone : ∀ q ∈ v.runs, q.id ≠ r.id := hgone ▸ List.forall_mem_nil _
  have hspares : w.Spares goesOut r.job.id := by
    intro g hg
    simp [goesOut, advancing] at hg
  exact (upload_interrupted_unless_superseded hw hi hr hk hj rfl hup hshut hs).2.1
    ⟨hready, hdead, hfree⟩ hspares hnone

end Worker

end Outbox
