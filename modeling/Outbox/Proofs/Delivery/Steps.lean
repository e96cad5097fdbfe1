import Outbox.Proofs.Delivery.Course
import Outbox.Proofs.Inversion

/-! # Steps are made of small moves

What each part of a step does to the course of messages. Main statement: `step_moves`. -/
namespace Outbox.Worker
set_option autoImplicit false

def course (w : Worker) : Course where
  now := w.now
  interrupted := w.interrupted
  installed := w.installed
  stage := w.loop.stage
  quitting := w.loop.quitting
  mailbox := w.loop.mailbox
  queue := w.loop.queue
  picked := w.loop.picked
  postings := w.postings
  handlings := w.handlings
  handovers := w.handovers

section Parts
variable (w : Worker)

/-! ## The three histories -/

theorem course_log_posted (d : Duration) (m : Message) :
    (w.log (.posted d m)).course = { w.course with postings := w.postings ++ [⟨w.now, d, m⟩] } := by
  have hp : (w.log (.posted d m)).postings = w.postings ++ [⟨w.now, d, m⟩] := List.reverse_cons
  unfold course
  rw [hp]
  rfl

theorem course_log_handled (e : TimerQueue.Entry Message) :
    (w.log (.handled e)).course = { w.course with handlings := w.handlings ++ [⟨w.now, e⟩] } := by
  have hp : (w.log (.handled e)).handlings = w.handlings ++ [⟨w.now, e⟩] := List.reverse_cons
  unfold course
  rw [hp]
  rfl

theorem course_drop (job : Job) (r : DropReason) :
    (w.drop job r).course = w.course.record job.id := by
  have hp : (w.drop job r).handovers = w.handovers ++ [⟨w.now, job.id⟩] := List.reverse_cons
  unfold course
  rw [hp]
  rfl

theorem course_begin (job : Job) (kind : RunKind) (claim : Option MessageId)
    (custom : Option ListenerName) (phase : Phase) :
    (w.begin job kind claim custom phase).course = w.course.record job.id := by
  have hp : (w.begin job kind claim custom phase).handovers = w.handovers ++ [⟨w.now, job.id⟩] :=
    List.reverse_cons
  unfold course
  rw [hp]
  rfl

theorem course_log_unstarted (job : JobId) :
    (w.log (.unstarted job)).course = w.course.record job := by
  have hp : (w.log (.unstarted job)).handovers = w.handovers ++ [⟨w.now, job⟩] :=
    List.reverse_cons
  unfold course
  rw [hp]
  rfl

/-! ## Posting -/

theorem course_post (m : Message) (d : Duration) : (w.post m d).2.course = w.course.post m d := by
  have hbox : w.course.mailbox = w.loop.mailbox := rfl
  unfold post Course.post
  rw [hbox]
  unfold Mailbox.post
  cases w.loop.mailbox.closed with
  | true => rfl
  | false => exact course_log_posted _ d m

theorem course_notify (m : Message) : (w.notify m).course = w.course.notify m := by
  unfold notify Course.notify
  rw [apply_ite course, course_post]
  rfl

theorem course_wake : w.wake.course = w.course := by
  unfold wake
  split <;> rfl

theorem course_accept (job : Job) (d : Duration) :
    (w.accept job d).2.course = w.course.post (.request job) d := by
  rw [← course_post]
  unfold accept
  split <;> rename_i v hv <;> rw [hv]
  · exact course_wake _
  · rfl

theorem postings_of_post {m : Message} {d : Duration} {v : Worker} (h : w.post m d = (true, v)) :
    v.postings = w.postings ++ [⟨w.now, d, m⟩] := by
  unfold post Mailbox.post at h
  cases hclosed : w.loop.mailbox.closed with
  | true =>
    rw [hclosed] at h
    cases h
  | false =>
    rw [hclosed] at h
    cases h
    exact List.reverse_cons

theorem installed_of_ready {attempts : UInt32} (h : w.readiness attempts = .ready) :
    w.installed = true := by
  unfold readiness at h
  split at h
  · cases h
  · split at h
    · assumption
    · split at h <;> cases h

theorem moves_look (s : Submission) : w.course.Moves (w.look s).2.course := by
  unfold look
  split
  · rename_i hready
    have hi : w.course.installed = true := installed_of_ready w hready
    change w.course.Moves (w.accept s.job s.delay).2.course
    rw [course_accept]
    exact .single (.post _ _ rfl nofun (.inl hi))
  · exact .refl
  · exact .refl

theorem postings_of_accept {job : Job} {d : Duration} {v : Worker}
    (h : w.accept job d = (.ok (), v)) : v.postings = w.postings ++ [⟨w.now, d, .request job⟩] := by
  unfold accept at h
  split at h
  · rename_i u hu
    obtain ⟨_, rfl⟩ := Prod.mk.inj h
    have hpost : u.postings = _ := postings_of_post w hu
    have hwake := course_wake ({ u with waiting := none }.log (.accepted job.id))
    exact (congrArg Course.postings hwake).trans hpost
  · cases h

theorem postings_of_look {s : Submission} {v : Worker} (h : w.look s = (some (.ok ()), v)) :
    v.postings = w.postings ++ [⟨w.now, s.delay, .request s.job⟩] := by
  unfold look at h
  split at h
  · obtain ⟨hr, hv⟩ := Prod.mk.inj h
    exact postings_of_accept w (Prod.ext (Option.some.inj hr) hv)
  · cases h
  · cases h

theorem moves_hold : w.course.Moves w.hold.course := by
  rw [hold, course_notify]
  exact Course.Moves.notify _ rfl nofun

theorem course_release :
    w.release.course = w.course ∨ w.release.course = w.course.notify .armIdle := by
  unfold release
  dsimp only
  split
  · exact .inl rfl
  · exact .inr (course_notify _ .armIdle)

theorem moves_release : w.course.Moves w.release.course := by
  rcases course_release w with h | h <;> rw [h]
  exact Course.Moves.notify _ rfl nofun

theorem moves_markIdle : w.course.Moves w.markIdle.course := by
  rw [markIdle, course_notify]
  exact Course.Moves.notify _ rfl nofun

theorem course_rotate : w.rotate.course = w.course := by
  unfold rotate
  split
  · dsimp only
    split <;> rfl
  · rfl

theorem moves_shutdown : w.course.Moves w.shutdown.course := by
  let v : Worker := { w with
    interrupted := true
    tickets := w.tickets.drain.2
    handles := w.handles.cancelAll w.tickets.drain.1 }
  have hquit : v.course.Moves (v.notify .quit).course := by
    rw [course_notify]
    exact Course.Moves.notify _ rfl fun _ => rfl
  have hmoves : w.course.Moves ({ v.notify .quit with installed := false } : Worker).course :=
    (Relation.ReflTransGen.single (.interrupt (c := w.course))).trans (hquit.tail .retire)
  unfold shutdown
  split
  · exact .refl
  · dsimp only
    split <;> exact hmoves

/-! ## The loop from outside and its stages -/

theorem moves_start : w.course.Moves w.start.course := by
  unfold start
  split
  · rename_i hs
    exact .single (.renew .entering (.inl ⟨hs, rfl⟩))
  · exact .refl

theorem moves_join : w.course.Moves w.join.2.course := by
  unfold join
  split
  · exact .refl
  · rename_i hs
    exact .single (.renew .absent (.inr ⟨hs, rfl⟩))
  · exact .refl

theorem moves_enter (hs : w.loop.stage = .entering) : w.course.Moves w.enter.course := by
  have hstage : w.course.stage = .entering := hs
  unfold enter
  cases hi : w.interrupted with
  | true => exact .single (.giveUp hstage hi)
  | false =>
    refine .single (.climb .pointing ?_ (by decide) fun _ => hi)
    rw [hstage]
    decide

theorem moves_climb {s : Stage} (hfrom : w.loop.stage ∈ [Stage.pointing, .opening, .awaitingOpen])
    (hto : s ∈ [Stage.pointing, .opening, .awaitingOpen, .preparing]) :
    w.course.Moves (w.setStage s).course := by
  refine .single (.climb s (List.mem_cons_of_mem _ hfrom) hto fun he => ?_)
  have hs : w.loop.stage = .entering := he
  rw [hs] at hfrom
  exact absurd hfrom (by decide)

theorem moves_point (hs : w.loop.stage = .pointing) : w.course.Moves w.point.course := by
  have hfrom : w.loop.stage ∈ [Stage.pointing, .opening, .awaitingOpen] := by
    rw [hs]
    decide
  unfold point
  split
  · have hc : (w.rotate.setStage .opening).course = { w.rotate.course with stage := .opening } := rfl
    rw [hc, course_rotate]
    exact moves_climb w hfrom (by decide)
  · exact moves_climb w hfrom (by decide)

theorem moves_prepare (pending : List Job) (hs : w.loop.stage = .preparing) :
    w.course.Moves (w.prepare pending).course := by
  have hposts : ∀ (jobs : List Job) (v : Worker), v.course.stage = .preparing →
      v.course.Moves (jobs.foldl (fun v job => (v.post (.request job) .zero).2) v).course ∧
        (jobs.foldl (fun v job => (v.post (.request job) .zero).2) v).course.stage =
          .preparing := by
    intro jobs
    induction jobs with
    | nil => exact fun v hv => ⟨.refl, hv⟩
    | cons job jobs ih =>
      intro v hv
      have hnext : (v.post (.request job) .zero).2.course.stage = .preparing := by
        rw [course_post, Course.post_stage]
        exact hv
      obtain ⟨hmoves, hstage⟩ := ih _ hnext
      refine ⟨.head (.post (.request job) .zero rfl nofun (.inr hv)) ?_, hstage⟩
      rw [← course_post]
      exact hmoves
  obtain ⟨hmoves, hstage⟩ := hposts pending w hs
  exact hmoves.tail (.install hstage)

/-! ## One round -/

def boxed (l : Loop) (letters : List (Letter Message)) : Loop :=
  { l with mailbox := { l.mailbox with letters } }

theorem course_takeIn (l : Loop) (letter : Letter Message) (rest : List (Letter Message)) :
    (w.withLoop (boxed (takeIn l letter) rest)).course =
      (w.withLoop (boxed l (letter :: rest))).course.takeIn letter rest := by
  obtain ⟨due, message⟩ := letter
  cases message <;> rfl

theorem moves_takeIn (letters : List (Letter Message)) (l : Loop) (hs : l.stage = .running) :
    (w.withLoop (boxed l letters)).course.Moves
      (w.withLoop (boxed (letters.foldl takeIn l) [])).course := by
  induction letters generalizing l with
  | nil => exact .refl
  | cons letter letters ih =>
    refine .head (.take letter letters hs rfl) ?_
    rw [← course_takeIn]
    exact ih (takeIn l letter) ((takeIn_facts l letter).1.trans hs)

/-- Most messages also take the idle timer out of the queue. -/
theorem course_handle (e : TimerQueue.Entry Message) :
    (w.handle e).course = w.course.handle e w.loop.queue ∨
      (w.handle e).course = (w.course.handle e w.loop.queue).purge := by
  have hu := course_log_handled (w.withLoop { w.loop with dirty := true }) e
  unfold handle
  generalize (w.withLoop { w.loop with dirty := true }).log (.handled e) = u at hu ⊢
  obtain ⟨due, number, item⟩ := e
  cases item with
  | request job =>
    refine .inr ?_
    change ({ u.course with picked := some job } : Course).purge = _
    rw [hu]
    rfl
  | disarmIdle | armIdle =>
    refine .inr ?_
    change u.course.purge = _
    rw [hu]
    rfl
  | armStop =>
    refine .inl ?_
    change u.course = _
    rw [hu]
    rfl
  | quit =>
    refine .inl ?_
    change ({ u.course with quitting := true } : Course) = _
    rw [hu]
    rfl
  | idle =>
    refine .inl ?_
    have hsignal : (if u.pushId.isSome then u.log (.signal .fullyIdle) else u).course = u.course := by
      split <;> rfl
    change (if u.pushId.isSome then u.log (.signal .fullyIdle) else u).course = _
    rw [hsignal, hu]
    rfl

theorem moves_handle {e : TimerQueue.Entry Message} {queue : TimerQueue Message}
    (hs : w.loop.stage = .running) (hp : w.loop.picked = none) (hl : w.loop.mailbox.letters = [])
    (he : w.loop.queue.popDue w.now = (some e, queue)) :
    w.course.Moves ((w.withLoop { w.loop with queue }).handle e).course := by
  have hhandle : w.course.Moves (w.course.handle e queue) := .single (.handle e queue hs hp hl he)
  rcases course_handle (w.withLoop { w.loop with queue }) e with h | h <;> rw [h]
  · exact hhandle
  · exact hhandle.tail .purge

theorem moves_setIdleTimer (hs : w.loop.stage = .running) (hp : w.loop.picked = none)
    (hl : w.loop.mailbox.letters = []) (he : (w.loop.queue.popDue w.now).1 = none) :
    w.course.Moves w.setIdleTimer.course := by
  unfold setIdleTimer
  split
  · dsimp only
    split
    · exact .single .purge
    · have hdue : w.now ≤ Instant.after w.now w.config.idleTimeout :=
        Nat.le_trans (Nat.le_add_right _ _) (Instant.le_after _ _)
      exact .single (.setIdle _ hs hdue hp hl he)
  · exact .refl

theorem course_askForStop : w.askForStop.course = w.course := by
  unfold askForStop
  split
  · dsimp only
    split <;> rfl
  · rfl

theorem moves_iterate (hs : w.loop.stage = .running) (hp : w.loop.picked = none) :
    w.course.Moves w.iterate.course := by
  have htake : w.course.Moves (w.withLoop (takeInAll w.loop)).course :=
    moves_takeIn w w.loop.mailbox.letters w.loop hs
  obtain ⟨hstage, hpicked, hletters⟩ := takeInAll_facts w.loop
  refine htake.trans ?_
  unfold iterate
  generalize hv : w.withLoop (takeInAll w.loop) = v
  have hvs : v.loop.stage = .running := hv ▸ hstage.trans hs
  have hvp : v.loop.picked = none := hv ▸ hpicked.trans hp
  have hvl : v.loop.mailbox.letters = [] := hv ▸ hletters
  dsimp only
  split
  · rename_i hq
    exact .single (.close hvs hvp hq)
  · split
    · rename_i e queue he
      exact moves_handle v hvs hvp hvl he
    · rename_i he
      split
      · rw [comeToRest, course_askForStop]
        exact moves_setIdleTimer (v.withLoop { v.loop with dirty := false }) hvs hvp hvl
          (congrArg Prod.fst he)
      · exact .refl

/-! ## Dispatch -/

theorem course_launch (job : Job) (claim : Option MessageId) (custom : Option ListenerName) :
    (w.launch job claim custom true).course = (w.course.record job.id).notify .disarmIdle := by
  obtain ⟨_, _, _, _, _, hl⟩ := launch_spec w job claim custom
  have hhold : w.hold.course = w.course.notify .disarmIdle := course_notify _ .disarmIdle
  rw [hl, course_begin, ← Course.record_notify, ← hhold]
  rfl

theorem moves_unstarted (job : Job) :
    (w.course.record job.id).Moves (w.unstarted job).course := by
  let held := (w.spent job).hold
  have hheld : held.course = w.course.notify .disarmIdle := course_notify _ .disarmIdle
  have hlog : (w.unstarted job).course = held.release.course.record job.id :=
    course_log_unstarted held.release job.id
  have hhold : (w.course.record job.id).Moves (held.course.record job.id) := by
    rw [hheld, Course.record_notify]
    exact Course.Moves.notify _ rfl nofun
  rw [hlog]
  rcases course_release held with h | h <;> rw [h]
  · exact hhold
  · rw [Course.record_notify]
    exact hhold.trans (Course.Moves.notify _ rfl nofun)

/-- A job that is to get an executor has the loop told that it is held. -/
theorem moves_dispatched (job : Job) (view : View) :
    (w.course.record job.id).Moves (w.dispatch job view).course := by
  have hspec := dispatch_spec w job view
  generalize w.dispatch job view = u at hspec
  cases hspec with
  | closed r => exact .of_eq (course_drop w job r)
  | duplicate => exact .of_eq (course_drop w job .duplicate)
  | refused p listeners => exact .of_eq (course_begin { w with listeners } job _ _ _ _)
  | inline _ s listeners => exact .of_eq (course_begin (w.admitting s listeners) job _ _ _ _)
  | detached _ s listeners =>
    rw [course_launch (w.admitting s listeners) job _ _]
    exact Course.Moves.notify _ rfl nofun
  | unstarted => exact moves_unstarted (w.admitting w.inFlight w.listeners) job

theorem moves_dispatch {job : Job} (view : View) (hp : w.loop.picked = some job) :
    w.course.Moves ((w.withLoop { w.loop with picked := none }).dispatch job view).course := by
  have hhand : w.course.Moves (w.course.hand job) := .single (.hand job hp)
  exact hhand.trans (moves_dispatched (w.withLoop { w.loop with picked := none }) job view)

/-! ## Runs -/

theorem course_noted (events : List Event) (v : Worker) (h : ∀ e ∈ events, e.byRun = true) :
    (events.foldl log v).course = v.course := by
  induction events generalizing v with
  | nil => rfl
  | cons e events ih =>
    obtain ⟨he, hevents⟩ := List.forall_mem_cons.mp h
    have hlog : (v.log e).course = v.course := by
      cases e <;> first | rfl | cases he
    rw [List.foldl_cons, ih _ hevents, hlog]

theorem moves_freed (r : Run) : w.course.Moves (w.freed r).course := by
  unfold freed
  split
  · exact moves_release { w with inFlight := w.givenBack r, tickets := _ }
  · exact .refl

theorem moves_exit (r : Run) : w.course.Moves (w.exit r).course := by
  obtain ⟨listeners, he⟩ := exit_spec w r
  rw [he]
  exact moves_freed w r

theorem moves_advanceRun {r : Run} {reply : Reply} {w' : Worker}
    (h : w.advanceRun? r reply = some w') : w.course.Moves w'.course := by
  cases advanceRun_spec h with
  | going _ succeeded failed requeued book events p _ he =>
    exact .of_eq (course_noted events _ he)
  | requeued => exact moves_look w _
  | ended => exact moves_exit w r

end Parts

/-! ## One step -/

theorem step_moves {w w' : Worker} {l : Label} (h : w.step l = some w') :
    w.course.Moves w'.course := by
  cases l with
  | submit job delay =>
    obtain ⟨_, rfl⟩ := submit_of_step h
    exact moves_look w _
  | lookAgain =>
    obtain ⟨s, _, rfl⟩ := lookAgain_of_step h
    exact moves_look w s
  | addListener | removeListener | setPushId | childTerminated =>
    cases h
    exact .refl
  | hold =>
    cases h
    exact moves_hold w
  | release =>
    cases h
    exact moves_release w
  | markIdle =>
    obtain ⟨_, rfl⟩ := markIdle_of_step h
    exact moves_markIdle w
  | childRespawning reason =>
    cases h
    exact .of_eq (course_rotate w)
  | cancel handle =>
    obtain ⟨_, rfl⟩ := cancel_of_step h
    exact .refl
  | shutdown =>
    cases h
    exact moves_shutdown w
  | start =>
    cases h
    exact moves_start w
  | join =>
    cases h
    exact moves_join w
  | tick d =>
    obtain ⟨hroom, rfl⟩ := tick_of_step h
    exact .single (.wait _ (Nat.le_add_right _ _) hroom)
  | enter =>
    obtain ⟨hs, rfl⟩ := atStage_eq_some h
    exact moves_enter w hs
  | point =>
    obtain ⟨hs, rfl⟩ := atStage_eq_some h
    exact moves_point w hs
  | openLink =>
    obtain ⟨hs, rfl⟩ := atStage_eq_some h
    refine moves_climb _ ?_ (by decide)
    rw [hs]
    decide
  | opened =>
    obtain ⟨hs, rfl⟩ := atStage_eq_some h
    refine moves_climb _ ?_ (by decide)
    rw [hs]
    decide
  | prepare pending =>
    obtain ⟨hs, rfl⟩ := atStage_eq_some h
    exact moves_prepare w pending hs
  | iterate =>
    obtain ⟨hfree, rfl⟩ := iterate_of_step h
    obtain ⟨hs, hp, _⟩ := loopFree_facts hfree
    exact moves_iterate w hs hp
  | dispatch view =>
    obtain ⟨job, hp, rfl⟩ := dispatch_of_step h
    exact moves_dispatch w view hp
  | advance id reply =>
    obtain ⟨r, _, _, hrun⟩ := advance_of_step h
    exact moves_advanceRun w hrun

end Outbox.Worker
