import Outbox.Proofs.Idle.Inbox
import Outbox.Proofs.Replay.First

/-! # Steps seen by the vigil

What each part of a step does to the vigil. Main statements: `vigil_move`, every step of a
reachable worker is a move of its vigil, and `vigil_kept`, so the vigil is always in order. -/
namespace Outbox.Worker
set_option autoImplicit false

def vigil (w : Worker) : Vigil where
  now := w.now
  timeout := w.config.idleTimeout
  installed := w.installed
  stage := w.loop.stage
  asked := w.loop.asked
  keepAlive := w.keepAlive
  idle := w.idle
  pushed := w.pushId.isSome
  controls := w.loop.controls
  timers := w.loop.timers
  idleArmed := w.loop.idleArmed
  stopArmed := w.loop.stopArmed
  dirty := w.loop.dirty
  busy := w.busy
  efforts := w.efforts
  rings := w.rings
  signals := w.signals
  marks := w.marks
  accepted := w.accepted
  marked := w.marked

/-- What the parts of a step rely on. -/
structure Watched (w : Worker) : Prop where
  room : w.now.HasRoom
  opened : w.installed = true → w.loop.mailbox.closed = false
  tidy : w.loop.Tidy w.now

/-- What the parts of a step lead to. -/
structure Shows (w : Worker) (c : Vigil) : Prop where
  tidy : w.loop.Tidy w.now
  vigil : w.vigil = c

section Parts
variable {w : Worker} {c : Vigil}

theorem Watched.shows (h : w.Watched) : w.Shows w.vigil := ⟨h.tidy, rfl⟩

theorem vigil_withLoop (w : Worker) (l : Loop) : (w.withLoop l).vigil = { w.vigil with
    stage := l.stage, asked := l.asked, controls := l.controls, timers := l.timers
    idleArmed := l.idleArmed, stopArmed := l.stopArmed, dirty := l.dirty
    busy := l.picked.isSome || w.runs.any (·.kind.onLoop) } := rfl

theorem vigil_alike {l : Loop} (h : w.loop.Alike l) : (w.withLoop l).vigil = w.vigil := by
  rw [vigil_withLoop, h.stage, h.asked, h.controls, h.timers, h.idleArmed, h.stopArmed, h.dirty,
    h.picked]
  rfl

/-! ## Posting -/

theorem post_of_open (hopen : w.loop.mailbox.closed = false) (m : Message) (d : Duration) :
    w.post m d = (true, (w.withLoop
      { w.loop with mailbox := (w.loop.mailbox.post w.now m d).2 }).log (.posted d m)) := by
  rw [post_eq, hopen]
  rfl

theorem shows_post (h : w.Watched) (hopen : w.loop.mailbox.closed = false) {m : Message}
    {d : Duration} (hm : m.isIdle = false) (hd : m.control? = none ∨ d = .zero) :
    (w.post m d).2.Shows { w.vigil with
      asked := w.vigil.asked || m.isQuit
      controls := w.vigil.controls ++ (instruction? w.now m).toList } := by
  have hdue : (instruction? (Instant.after w.now d) m).toList = (instruction? w.now m).toList := by
    rcases hd with hd | rfl
    · rw [instruction?_of_none hd, instruction?_of_none hd]
    · rw [Instant.after_zero h.room]
  rw [post_of_open hopen]
  refine ⟨h.tidy.post h.room hm hd, ?_⟩
  change (w.withLoop { w.loop with mailbox := (w.loop.mailbox.post w.now m d).2 }).vigil = _
  rw [vigil_withLoop, Loop.Tidy.asked_post hopen, Loop.Tidy.controls_post hopen, hdue]
  rfl

theorem shows_notify (h : w.Watched) {m : Message} {k : Control} (hm : m.control? = some k) :
    (w.notify m).Shows { w.vigil with controls := w.vigil.controls ++ w.vigil.words k } := by
  have hkind : m.isIdle = false ∧ m.isQuit = false := by
    cases m <;> first | exact ⟨rfl, rfl⟩ | cases hm
  cases hi : w.installed with
  | true =>
    have hword : instruction? w.now m = some ⟨w.now, k⟩ := instruction?_eq_some.mpr ⟨hm, rfl⟩
    have hwords : w.vigil.words k = [⟨w.now, k⟩] := if_pos hi
    have hpost := shows_post h (h.opened hi) (d := .zero) hkind.1 (.inr rfl)
    rw [hkind.2, Bool.or_false, hword] at hpost
    rw [notify, if_pos hi, hwords]
    exact hpost
  | false =>
    have hwords : w.vigil.words k = [] := if_neg (Bool.eq_false_iff.mp hi)
    rw [notify, if_neg (Bool.eq_false_iff.mp hi), hwords, List.append_nil]
    exact h.shows

theorem shows_hold (h : w.Watched) : w.hold.Shows w.vigil.hold :=
  shows_notify (w := { w with keepAlive := w.keepAlive.hold }) { h with } rfl

theorem shows_release (h : w.Watched) : w.release.Shows w.vigil.release := by
  have hnotify := shows_notify (w := { w with keepAlive := w.keepAlive.release }) (m := .armIdle)
    { h with } rfl
  have hheld : w.vigil.release = { w.vigil with
      keepAlive := w.keepAlive.release
      controls := w.vigil.controls ++
        if w.keepAlive.release.isHeld then [] else w.vigil.words .arm } := rfl
  unfold release
  rw [hheld]
  dsimp only
  split
  · rw [List.append_nil]
    exact ⟨h.tidy, rfl⟩
  · exact hnotify

theorem watched_hold (h : w.Watched) : w.hold.Watched := by
  obtain ⟨htidy, hvigil⟩ := shows_hold h
  have hnow : w.hold.now = w.now := congrArg Vigil.now hvigil
  have hinstalled : w.hold.installed = w.installed := congrArg Vigil.installed hvigil
  have hclosed : w.hold.loop.mailbox.closed = w.loop.mailbox.closed := by
    rw [hold, notify_eq]
    dsimp only
    split
    · exact closed_post _ _ _ _
    · rfl
  exact ⟨hnow ▸ h.room, fun hi => hclosed.trans (h.opened (hinstalled ▸ hi)), htidy⟩

theorem shows_markIdle (h : w.Watched) : w.markIdle.Shows w.vigil.mark := by
  have hwatched : (log { w with idle := true } .markedIdle).Watched := { h with }
  exact shows_notify hwatched rfl

theorem vigil_wake (w : Worker) : w.wake.vigil = { w.vigil with
    idle := false
    signals := if w.idle then .startKeepAlive :: w.signals else w.signals } := by
  cases hidle : w.idle with
  | true =>
    have hwake : w.wake = { w with idle := false }.log (.signal .startKeepAlive) := if_pos hidle
    rw [hwake]
    rfl
  | false =>
    have hwake : w.wake = w := if_neg (Bool.eq_false_iff.mp hidle)
    rw [hwake]
    unfold vigil
    rw [hidle]
    rfl

theorem tidy_wake (h : w.loop.Tidy w.now) : w.wake.loop.Tidy w.wake.now := by
  unfold wake
  split <;> exact h

/-- Whether the job is taken or not, the vigil does not see it. -/
theorem watched_request (h : w.Watched) (job : Job) (d : Duration) :
    (w.post (.request job) d).2.Watched ∧ (w.post (.request job) d).2.vigil = w.vigil := by
  cases hclosed : w.loop.mailbox.closed with
  | true =>
    have hsame : (w.post (.request job) d).2 = w := by
      unfold post
      rw [Mailbox.post, if_pos hclosed]
    rw [hsame]
    exact ⟨h, rfl⟩
  | false =>
    obtain ⟨htidy, hvigil⟩ := shows_post h hclosed (m := .request job) (d := d) rfl (.inl rfl)
    refine ⟨⟨?_, fun hi => ?_, htidy⟩, ?_⟩
    · rw [post_eq]
      exact h.room
    · rw [post_eq]
      exact (closed_post _ _ _ _).trans hclosed
    · rw [hvigil]
      change ({ w.vigil with asked := w.vigil.asked || false, controls := _ ++ [] } : Vigil) = _
      rw [Bool.or_false, List.append_nil]

theorem shows_accept (h : w.Watched) (hi : w.installed = true) (job : Job) (d : Duration) :
    ∃ v, w.accept job d = (.ok (), v) ∧ v.Shows w.vigil.accept := by
  obtain ⟨hwatched, hvigil⟩ := watched_request h job d
  unfold accept
  generalize hu : (w.post (.request job) d).2 = u at hwatched hvigil
  have htaken : (w.post (.request job) d).1 = true := by rw [post_of_open (h.opened hi)]
  rw [show w.post (.request job) d = (true, u) from Prod.ext htaken hu]
  refine ⟨_, rfl, tidy_wake hwatched.tidy, ?_⟩
  rw [vigil_wake, ← hvigil]
  rfl

inductive Look (w : Worker) (s : Submission) : Prop
  | accepted (v : Worker) (he : w.look s = (some (.ok ()), v)) (hv : v.Shows w.vigil.accept)
  | refused (r : Refusal) (he : w.look s = (some (.error r), w.refuse s.job r))
  | waiting (s' : Submission) (he : w.look s = (none, { w with waiting := some s' }))

theorem look_cases (h : w.Watched) (s : Submission) : Look w s := by
  cases hr : w.readiness s.attempts with
  | ready =>
    obtain ⟨v, he, hv⟩ := shows_accept h (installed_of_ready w hr) s.job s.delay
    refine .accepted v ?_ hv
    unfold look
    rw [hr]
    dsimp only
    rw [he]
  | refused r =>
    refine .refused r ?_
    unfold look
    rw [hr]
  | lookAgain =>
    refine .waiting { s with attempts := s.attempts + 1 } ?_
    unfold look
    rw [hr]

theorem move_look (h : w.Watched) (s : Submission) :
    ∃ c, w.vigil.Move c ∧ (w.look s).2.Shows c := by
  cases look_cases h s with
  | accepted v he hv =>
    rw [he]
    exact ⟨_, .accept, hv⟩
  | refused r he | waiting s' he =>
    rw [he]
    exact ⟨_, .still, h.tidy, rfl⟩

theorem move_shutdown (h : w.Watched) : ∃ c, w.vigil.Move c ∧ w.shutdown.Shows c := by
  let v : Worker := { w with
    interrupted := true
    tickets := w.tickets.drain.2
    handles := w.handles.cancelAll w.tickets.drain.1 }
  have hv : v.Watched := { h with }
  have hquit : ({ v.notify .quit with installed := false } : Worker).Shows w.vigil.silence := by
    unfold Vigil.silence
    cases hi : w.installed with
    | true =>
      have hpost := shows_post hv (h.opened hi) (m := .quit) (d := .zero) rfl (.inr rfl)
      have hnotify : v.notify .quit = (v.post .quit .zero).2 := if_pos hi
      have hinstalled : w.vigil.installed = true := hi
      rw [hnotify, hinstalled]
      refine ⟨hpost.tidy, (congrArg (fun c : Vigil => { c with installed := false })
        hpost.vigil).trans ?_⟩
      change ({ w.vigil with asked := _, installed := false, controls := _ ++ [] } : Vigil) = _
      rw [List.append_nil]
      rfl
    | false =>
      have hnotify : v.notify .quit = v := if_neg (Bool.eq_false_iff.mp hi)
      have hinstalled : w.vigil.installed = false := hi
      rw [hnotify, hinstalled, Bool.or_false]
      exact ⟨h.tidy, rfl⟩
  unfold shutdown
  split
  · exact ⟨_, .still, h.shows⟩
  · dsimp only
    split <;> exact ⟨_, .silence, hquit.tidy, hquit.vigil⟩

theorem shows_rotate (h : w.Watched) : w.rotate.Shows w.vigil := by
  unfold rotate
  split
  · dsimp only
    split <;> exact ⟨h.tidy, rfl⟩
  · exact h.shows

/-! ## The stages of the loop -/

theorem shows_prepare (h : w.Watched) (pending : List Job) :
    (w.prepare pending).Shows w.vigil.prepare := by
  have hposts : ∀ (jobs : List Job) (v : Worker), v.Watched →
      (jobs.foldl (fun v job => (v.post (.request job) .zero).2) v).Shows v.vigil := by
    intro jobs
    induction jobs with
    | nil => exact fun v hv => hv.shows
    | cons job jobs ih =>
      intro v hv
      obtain ⟨hwatched, hvigil⟩ := watched_request hv job .zero
      exact hvigil ▸ ih _ hwatched
  obtain ⟨htidy, hvigil⟩ := hposts pending w h
  exact ⟨{ htidy with }, hvigil ▸ rfl⟩

theorem move_renewed (w : Worker) (s : Stage) (hfrom : w.loop.stage ≠ .running)
    (hto : s ≠ .running) :
    ∃ c, w.vigil.Move c ∧ (w.withLoop { stage := s }).Shows c :=
  ⟨_, .renew s (w.runs.any (·.kind.onLoop)) hfrom hto fun hb => Bool.or_eq_true_iff.mpr (.inr hb),
    .blank w.now rfl rfl, rfl⟩

/-- Before a loop runs it only goes from one stage to another. -/
theorem move_climb (h : w.Shows c) {s : Stage} (hfrom : c.stage ≠ .running)
    (hlive : c.stage ≠ .exited) (hto : s ≠ .running) : ∃ d, c.Move d ∧ (w.setStage s).Shows d := by
  obtain ⟨htidy, rfl⟩ := h
  exact ⟨_, .climb s hfrom hlive hto, { htidy with }, rfl⟩

/-! ## One round -/

/-- What the loop becomes by handling a message. -/
def handledLoop (l : Loop) : Message → Loop
  | .request job => { removeIdle l with dirty := true, picked := some job }
  | .idle => { l with dirty := true }
  | .disarmIdle => { removeIdle l with dirty := true, idleArmed := false }
  | .armIdle => { removeIdle l with dirty := true, idleArmed := true }
  | .armStop => { l with dirty := true, stopArmed := true }
  | .quit => { l with dirty := true, quitting := true }

theorem handle_loop (w : Worker) (e : TimerQueue.Entry Message) :
    (w.handle e).loop = handledLoop w.loop e.item ∧ (w.handle e).now = w.now := by
  obtain ⟨due, number, item⟩ := e
  cases item with
  | idle =>
    unfold handle
    dsimp only
    split <;> exact ⟨rfl, rfl⟩
  | _ => exact ⟨rfl, rfl⟩

theorem vigil_handle (w : Worker) (e : TimerQueue.Entry Message) :
    (w.handle e).vigil = { (w.withLoop (handledLoop w.loop e.item)).vigil with
      efforts := if e.item.stirs then w.now :: w.efforts else w.efforts
      rings := if e.item.isIdle then e :: w.rings else w.rings
      signals :=
        if e.item.isIdle && w.pushId.isSome then .fullyIdle :: w.signals else w.signals } := by
  obtain ⟨due, number, item⟩ := e
  cases item with
  | idle =>
    cases hp : w.pushId.isSome with
    | true =>
      have hhandle : w.handle ⟨due, number, .idle⟩ =
          ((w.withLoop { w.loop with dirty := true }).log (.handled ⟨due, number, .idle⟩)).log
            (.signal .fullyIdle) := if_pos hp
      rw [hhandle]
      rfl
    | false =>
      have hhandle : w.handle ⟨due, number, .idle⟩ =
          (w.withLoop { w.loop with dirty := true }).log (.handled ⟨due, number, .idle⟩) :=
        if_neg (Bool.eq_false_iff.mp hp)
      rw [hhandle]
      rfl
  | _ => rfl

/-- Whatever was told before a timer is due is handled before it, so a timer that comes to its turn
is due before all that the loop is still told. -/
theorem round_handle (h : w.Watched) (hl : w.loop.mailbox.letters = [])
    (hq : w.loop.asked = false) {e : TimerQueue.Entry Message} {queue : TimerQueue Message}
    (hpop : w.loop.queue.popDue w.now = (some e, queue)) :
    ∃ c, w.vigil.Round c ∧ ((w.withLoop { w.loop with queue }).handle e).Shows c := by
  obtain ⟨htidy, hquit, hcontrols, htimers, hdue⟩ := h.tidy.popped hpop
  obtain ⟨hpurged, hkept, hnone⟩ := htidy.removeIdle
  obtain ⟨hloop, hnow⟩ := handle_loop (w.withLoop { w.loop with queue }) e
  have hvigil := vigil_handle (w.withLoop { w.loop with queue }) e
  rw [vigil_withLoop] at hvigil
  obtain ⟨due, number, item⟩ := e
  cases item with
  | request job =>
    have hsame : w.loop.controls = (removeIdle { w.loop with queue }).controls :=
      hcontrols.trans hkept.symm
    refine ⟨_, .serve hq, ?_, hvigil.trans ?_⟩
    · rw [hloop, hnow]
      exact { hpurged with }
    · change ({ w.vigil with
        controls := (removeIdle { w.loop with queue }).controls
        timers := (removeIdle { w.loop with queue }).timers
        dirty := true, busy := true, efforts := w.now :: w.efforts } : Vigil) = _
      rw [hnone, ← hsame]
      rfl
  | idle =>
    have hsame : w.loop.controls = Loop.controls { w.loop with queue } := hcontrols
    refine ⟨_, .ring ⟨due, number, .idle⟩ _ hq htimers hdue (h.tidy.due_le_of_popDue hl hpop), ?_,
      hvigil.trans ?_⟩
    · rw [hloop, hnow]
      exact { htidy with }
    · change ({ w.vigil with
        controls := Loop.controls { w.loop with queue }
        timers := Loop.timers { w.loop with queue }
        dirty := true, rings := ⟨due, number, .idle⟩ :: w.rings
        signals := if w.pushId.isSome then .fullyIdle :: w.signals else w.signals } : Vigil) = _
      rw [← hsame]
      rfl
  | disarmIdle | armIdle =>
    refine ⟨_, .obey ⟨due, _⟩ _ hq hcontrols, ?_, hvigil.trans ?_⟩
    · rw [hloop, hnow]
      exact { hpurged with }
    · change ({ w.vigil with
        controls := (removeIdle { w.loop with queue }).controls
        timers := (removeIdle { w.loop with queue }).timers
        idleArmed := _, dirty := true, efforts := w.now :: w.efforts } : Vigil) = _
      rw [hkept, hnone]
      rfl
  | armStop =>
    have hsame : w.loop.timers = Loop.timers { w.loop with queue } := htimers
    refine ⟨_, .obey ⟨due, .stop⟩ _ hq hcontrols, ?_, hvigil.trans ?_⟩
    · rw [hloop, hnow]
      exact { htidy with }
    · change ({ w.vigil with
        controls := Loop.controls { w.loop with queue }
        timers := Loop.timers { w.loop with queue }
        stopArmed := true, dirty := true } : Vigil) = _
      rw [← hsame]
      rfl
  | quit => cases hquit

theorem tidy_askForStop (h : w.loop.Tidy w.now) : w.askForStop.loop.Tidy w.askForStop.now := by
  unfold askForStop
  split
  · dsimp only
    split <;> exact { h with }
  · exact h

theorem vigil_askForStop (w : Worker) : w.askForStop.vigil = { w.vigil with
    stopArmed := false
    signals := if w.vigil.stopArmed && w.vigil.idle then .stopIfIdle :: w.vigil.signals
      else w.vigil.signals } := by
  cases harmed : w.loop.stopArmed with
  | true =>
    have hask : w.askForStop =
        if w.idle then (w.withLoop { w.loop with stopArmed := false }).log (.signal .stopIfIdle)
        else w.withLoop { w.loop with stopArmed := false } := if_pos harmed
    have hboth : (w.vigil.stopArmed && w.vigil.idle) = w.idle := by
      change (w.loop.stopArmed && w.idle) = w.idle
      rw [harmed, Bool.true_and]
    rw [hask, hboth]
    cases w.idle <;> rfl
  | false =>
    have hask : w.askForStop = w := if_neg (Bool.eq_false_iff.mp harmed)
    rw [hask]
    unfold vigil
    dsimp only
    rw [harmed]
    rfl

/-- The timer that is set has a number that no other has. -/
theorem shows_setIdleTimer (h : w.Watched) :
    w.setIdleTimer.Shows { w.vigil with
      timers := if w.loop.idleArmed then if w.keepAlive.isHeld then [] else
        [⟨Instant.after w.now w.config.idleTimeout, w.loop.queue.last + 1, .idle⟩]
      else w.vigil.timers } := by
  obtain ⟨hpurged, hkept, hnone⟩ := h.tidy.removeIdle
  unfold setIdleTimer
  split
  · dsimp only
    split
    · refine ⟨hpurged, ?_⟩
      rw [vigil_withLoop, hkept, hnone]
      rfl
    · obtain ⟨hset, hsame, htimers⟩ :=
        hpurged.setIdle hnone (Instant.after w.now w.config.idleTimeout)
      refine ⟨hset, ?_⟩
      change (w.withLoop { removeIdle w.loop with
        queue := (removeIdle w.loop).queue.insert (Instant.after w.now w.config.idleTimeout)
          .idle }).vigil = _
      rw [vigil_withLoop, hsame, htimers, hkept]
      rfl
  · exact h.shows

theorem shows_comeToRest (h : w.Watched) :
    w.comeToRest.Shows (w.vigil.rest
      ⟨Instant.after w.now w.config.idleTimeout, w.loop.queue.last + 1, .idle⟩) := by
  have hclean : (w.withLoop { w.loop with dirty := false }).Watched :=
    ⟨h.room, h.opened, { h.tidy with }⟩
  obtain ⟨htidy, hvigil⟩ := shows_setIdleTimer hclean
  refine ⟨tidy_askForStop htidy, ?_⟩
  rw [comeToRest, vigil_askForStop, hvigil]
  rfl

theorem Watched.takeInAll (h : w.Watched) : (w.withLoop (takeInAll w.loop)).Watched :=
  ⟨h.room, fun hi => (takeInAll_closed w.loop).trans (h.opened hi), h.tidy.takeInAll.1⟩

theorem round_iterate (h : w.Watched) : ∃ c, w.vigil.Round c ∧ w.iterate.Shows c := by
  obtain ⟨_, _, hletters⟩ := takeInAll_facts w.loop
  have hwatched := h.takeInAll
  rw [← vigil_alike h.tidy.takeInAll.2]
  unfold iterate
  generalize hv : w.withLoop (takeInAll w.loop) = v at hwatched
  have hl : v.loop.mailbox.letters = [] := hv ▸ hletters
  dsimp only
  split
  · rename_i hq
    have hasked : v.vigil.asked = true := Bool.or_eq_true_iff.mpr (.inl hq)
    have hexit : v.exitLoop.vigil = { v.vigil with
        installed := false, stage := .exited, asked := v.loop.quitting || false
        controls := [], timers := [] } := rfl
    refine ⟨_, .close hasked, .blank _ rfl rfl, hexit.trans ?_⟩
    rw [hq, show (true || false) = v.vigil.asked from hasked.symm]
    rfl
  · rename_i hq
    have hasked : v.vigil.asked = false := by
      change (v.loop.quitting || v.loop.mailbox.letters.any _) = false
      rw [hl, Bool.eq_false_iff.mpr hq]
      rfl
    split
    · rename_i e queue hpop
      exact round_handle hwatched hl hasked hpop
    · rename_i hpop
      split
      · have hnone : v.vigil.controls = [] := hwatched.tidy.told_nothing hl
          (hwatched.tidy.sound.lt_due_of_popDue (congrArg Prod.fst hpop))
        refine ⟨_, .rest _ hasked hnone rfl fun hmem => ?_, shows_comeToRest hwatched⟩
        have hnumber := hwatched.tidy.sound.fresh _ (List.mem_filter.mp hmem).1
        exact Nat.lt_irrefl _ hnumber
      · exact ⟨_, .block hasked, hwatched.shows⟩

theorem vigil_free (h : w.loopFree = true) : w.vigil.stage = .running ∧ w.vigil.busy = false := by
  obtain ⟨hs, hp, hruns⟩ := loopFree_facts h
  refine ⟨hs, ?_⟩
  change (w.loop.picked.isSome || w.runs.any _) = false
  rw [hp, List.any_eq_false.mpr fun r hr => Bool.eq_false_iff.mp (hruns r hr)]
  rfl

/-! ## Dispatch -/

theorem vigil_begin (w : Worker) (job : Job) (kind : RunKind) (claim : Option MessageId)
    (custom : Option ListenerName) (phase : Phase) :
    ∃ busy, (w.begin job kind claim custom phase).vigil = w.vigil.hand busy :=
  ⟨(w.begin job kind claim custom phase).busy, rfl⟩

theorem shows_unstarted (h : w.Watched) (job : Job) :
    (w.unstarted job).Shows (w.vigil.hold.release.hand w.busy) := by
  have hspent : (w.spent job).Watched := { h with }
  obtain ⟨htidy, hvigil⟩ := shows_release (watched_hold hspent)
  rw [(shows_hold hspent).vigil] at hvigil
  have hbusy : (w.spent job).hold.release.busy = w.busy := congrArg Vigil.busy hvigil
  refine ⟨htidy, ?_⟩
  change (w.spent job).hold.release.vigil.hand (w.spent job).hold.release.busy = _
  rw [hvigil, hbusy]
  rfl

theorem shows_dispatch (h : w.Watched) (job : Job) (view : View) :
    ∃ busy, (w.dispatch job view).Shows (w.vigil.hand busy) ∨
      (w.dispatch job view).Shows (w.vigil.hold.hand busy) ∨
      (w.dispatch job view).Shows (w.vigil.hold.release.hand busy) := by
  have hspec := dispatch_spec w job view
  generalize w.dispatch job view = v at hspec
  cases hspec with
  | closed | duplicate => exact ⟨w.busy, .inl ⟨h.tidy, rfl⟩⟩
  | refused p listeners custom | inline claim s listeners custom =>
    exact ⟨_, .inl ⟨h.tidy, rfl⟩⟩
  | detached claim s listeners custom =>
    obtain ⟨handles, tickets, book, ticket, handle, hl⟩ :=
      launch_spec (w.admitting s listeners) job claim custom
    obtain ⟨htidy, hvigil⟩ := shows_hold (w := w.admitting s listeners) { h with }
    obtain ⟨busy, hbegin⟩ := vigil_begin
      { (w.admitting s listeners).hold with handles, tickets, book } job (.detached ticket handle)
      claim custom .ready
    rw [hl]
    exact ⟨busy, .inr (.inl ⟨htidy, hbegin.trans (congrArg (·.hand busy) hvigil)⟩)⟩
  | unstarted =>
    exact ⟨_, .inr (.inr (shows_unstarted (w := w.admitting w.inFlight w.listeners) { h with }
      job))⟩

theorem move_dispatch (h : w.Watched) {job : Job} (hp : w.loop.picked = some job) (view : View) :
    ∃ c, w.vigil.Move c ∧
      ((w.withLoop { w.loop with picked := none }).dispatch job view).Shows c := by
  have hbusy : w.vigil.busy = true := by
    change (w.loop.picked.isSome || w.runs.any _) = true
    rw [hp]
    rfl
  have hhanded : (w.withLoop { w.loop with picked := none }).Watched :=
    ⟨h.room, h.opened, { h.tidy with }⟩
  obtain ⟨busy, hv | hv | hv⟩ := shows_dispatch hhanded job view
  · exact ⟨_, .hand busy hbusy, hv⟩
  · exact ⟨_, .launch busy hbusy, hv⟩
  · exact ⟨_, .launchNone busy hbusy, hv⟩

/-! ## Runs -/

theorem vigil_setPhase (w : Worker) (id : Nat) (p : Phase) :
    (w.setPhase id p).vigil = w.vigil := by
  have hruns : (w.setPhase id p).runs.any (·.kind.onLoop) = w.runs.any (·.kind.onLoop) := by
    change (w.runs.map _).any _ = _
    rw [List.any_map]
    congr 1
    funext r
    change (if r.id = id then { r with phase := p } else r).kind.onLoop = r.kind.onLoop
    split <;> rfl
  have hvigil : (w.setPhase id p).vigil = { w.vigil with
      busy := w.loop.picked.isSome || (w.setPhase id p).runs.any (·.kind.onLoop) } := rfl
  rw [hvigil, hruns]
  rfl

theorem vigil_noted (events : List Event) (v : Worker) (h : ∀ e ∈ events, e.byRun = true) :
    (events.foldl log v).vigil = v.vigil := by
  induction events generalizing v with
  | nil => rfl
  | cons e events ih =>
    obtain ⟨he, hevents⟩ := List.forall_mem_cons.mp h
    have hlog : (v.log e).vigil = v.vigil := by
      cases e <;> first | rfl | cases he
    rw [List.foldl_cons, ih _ hevents, hlog]

theorem shows_freed (h : w.Watched) (r : Run) :
    (w.freed r).Shows w.vigil ∨ (w.freed r).Shows w.vigil.release := by
  unfold freed
  split
  · exact .inr (shows_release
      (w := { w with inFlight := w.givenBack r, tickets := (w.tickets.remove _).2 }) { h with })
  · exact .inl ⟨h.tidy, rfl⟩

theorem move_exit (h : w.Watched) (r : Run) : ∃ c, w.vigil.Move c ∧ (w.exit r).Shows c := by
  obtain ⟨listeners, he⟩ := exit_spec w r
  have hbusy : ((w.freed r).loop.picked.isSome ||
      ((w.freed r).runs.filter (·.id != r.id)).any (·.kind.onLoop)) = true →
        (w.freed r).vigil.busy = true := by
    intro hb
    rcases Bool.or_eq_true_iff.mp hb with hp | hruns
    · exact Bool.or_eq_true_iff.mpr (.inl hp)
    · obtain ⟨x, hx, hk⟩ := List.any_eq_true.mp hruns
      exact Bool.or_eq_true_iff.mpr
        (.inr (List.any_eq_true.mpr ⟨x, (List.mem_filter.mp hx).1, hk⟩))
  have hexit : (w.exit r).vigil = { (w.freed r).vigil with
      busy := (w.freed r).loop.picked.isSome ||
        ((w.freed r).runs.filter (·.id != r.id)).any (·.kind.onLoop) } := by
    rw [he]
    rfl
  have hloop : (w.exit r).loop = (w.freed r).loop ∧ (w.exit r).now = (w.freed r).now := by
    rw [he]
    exact ⟨rfl, rfl⟩
  rcases shows_freed h r with ⟨htidy, hvigil⟩ | ⟨htidy, hvigil⟩
  all_goals
    rw [hvigil] at hbusy hexit
    rw [← hloop.1, ← hloop.2] at htidy
  · exact ⟨_, .leave _ hbusy, htidy, hexit⟩
  · exact ⟨_, .free _ hbusy, htidy, hexit⟩

theorem move_advance (h : w.Watched) {r : Run} {reply : Reply} {v : Worker}
    (hv : w.advanceRun? r reply = some v) : ∃ c, w.vigil.Move c ∧ v.Shows c := by
  cases advanceRun_spec hv with
  | going _ succeeded failed requeued book events p _ hevents =>
    refine ⟨_, .still, ?_, ?_⟩
    · rw [noted_eq]
      exact h.tidy
    · rw [vigil_setPhase, vigil_noted events _ hevents]
      rfl
  | requeued =>
    obtain ⟨c, hm, htidy, hvigil⟩ := move_look h
      { job := r.job, delay := w.config.retryDelay, attempts := w.config.submitAttempts }
    exact ⟨c, hm, htidy, (vigil_setPhase _ _ _).trans hvigil⟩
  | ended => exact move_exit h r

end Parts

/-! ## Every step -/

section Steps
variable {config : Config} {w v : Worker} {l : Label}

theorem move_step (h : w.Watched) (hs : w.step l = some v) : ∃ c, w.vigil.Move c ∧ v.Shows c := by
  cases l with
  | submit job delay =>
    obtain ⟨_, rfl⟩ := submit_of_step hs
    exact move_look h _
  | lookAgain =>
    obtain ⟨s, _, rfl⟩ := lookAgain_of_step hs
    exact move_look h s
  | addListener | removeListener | childTerminated =>
    cases hs
    exact ⟨_, .still, h.tidy, rfl⟩
  | setPushId id =>
    cases hs
    exact ⟨_, .push id.isSome, h.tidy, rfl⟩
  | hold =>
    cases hs
    exact ⟨_, .hold, shows_hold h⟩
  | release =>
    cases hs
    exact ⟨_, .release, shows_release h⟩
  | markIdle =>
    obtain ⟨_, rfl⟩ := markIdle_of_step hs
    exact ⟨_, .mark, shows_markIdle h⟩
  | childRespawning reason =>
    cases hs
    exact ⟨_, .still, shows_rotate h⟩
  | cancel handle =>
    obtain ⟨_, rfl⟩ := cancel_of_step hs
    exact ⟨_, .still, h.tidy, rfl⟩
  | shutdown =>
    cases hs
    exact move_shutdown h
  | start =>
    cases hs
    unfold start
    split
    · rename_i hstage
      exact move_renewed w .entering (hstage ▸ Stage.noConfusion) Stage.noConfusion
    · exact ⟨_, .still, h.shows⟩
  | join =>
    cases hs
    unfold join
    split
    · exact ⟨_, .still, h.shows⟩
    · rename_i hstage
      exact move_renewed w .absent (hstage ▸ Stage.noConfusion) Stage.noConfusion
    · exact ⟨_, .still, h.shows⟩
  | tick d =>
    obtain ⟨_, rfl⟩ := tick_of_step hs
    exact ⟨_, .wait _ (Nat.le_add_right _ _), h.tidy.wait (Nat.le_add_right _ _), rfl⟩
  | enter =>
    obtain ⟨hstage, rfl⟩ := atStage_eq_some hs
    have hvigil : w.vigil.stage = .entering := hstage
    refine move_climb h.shows (hvigil ▸ Stage.noConfusion) (hvigil ▸ Stage.noConfusion) ?_
    split <;> exact Stage.noConfusion
  | point =>
    obtain ⟨hstage, rfl⟩ := atStage_eq_some hs
    have hvigil : w.vigil.stage = .pointing := hstage
    unfold point
    split
    · exact move_climb (shows_rotate h) (hvigil ▸ Stage.noConfusion) (hvigil ▸ Stage.noConfusion)
        Stage.noConfusion
    · exact move_climb h.shows (hvigil ▸ Stage.noConfusion) (hvigil ▸ Stage.noConfusion)
        Stage.noConfusion
  | openLink =>
    obtain ⟨hstage, rfl⟩ := atStage_eq_some hs
    have hvigil : w.vigil.stage = .opening := hstage
    exact move_climb (w := w.log (.link .start)) ⟨h.tidy, rfl⟩ (hvigil ▸ Stage.noConfusion)
      (hvigil ▸ Stage.noConfusion) Stage.noConfusion
  | opened =>
    obtain ⟨hstage, rfl⟩ := atStage_eq_some hs
    have hvigil : w.vigil.stage = .awaitingOpen := hstage
    exact move_climb h.shows (hvigil ▸ Stage.noConfusion) (hvigil ▸ Stage.noConfusion)
      Stage.noConfusion
  | prepare pending =>
    obtain ⟨hstage, rfl⟩ := atStage_eq_some hs
    exact ⟨_, .prepare hstage, shows_prepare h pending⟩
  | iterate =>
    obtain ⟨hfree, rfl⟩ := iterate_of_step hs
    obtain ⟨hstage, hbusy⟩ := vigil_free hfree
    obtain ⟨c, hround, hv⟩ := round_iterate h
    exact ⟨c, .round hstage hbusy hround, hv⟩
  | dispatch view =>
    obtain ⟨job, hp, rfl⟩ := dispatch_of_step hs
    exact move_dispatch h hp view
  | advance id reply =>
    obtain ⟨r, _, _, hrun⟩ := advance_of_step hs
    exact move_advance h hrun

/-! ## Reachable workers -/

theorem kept_create (config : Config) : (create config 0).vigil.Kept where
  early _ := ⟨rfl, rfl, rfl⟩
  told := nofun
  past := List.forall_mem_nil _
  single := Nat.zero_le _
  unarmed _ := rfl
  calm _ := rfl
  fresh _ _ := rfl
  marked := rfl
  stopping := nofun
  efforts := List.forall_mem_nil _
  stops := Nat.le_refl _

theorem watched_kept (h : Reachable config w) : w.Watched ∧ w.vigil.Kept := by
  refine h.induction (P := fun w => w.Watched ∧ w.vigil.Kept) ?_ ?_
  · exact ⟨⟨hasRoom (.create config), nofun, .blank _ rfl rfl⟩, kept_create config⟩
  · rintro w l v hr ⟨hw, hk⟩ hs
    obtain ⟨c, hm, htidy, rfl⟩ := move_step hw hs
    have hkept := hk.move hm
    refine ⟨⟨hasRoom (hr.step hs), fun hi => ?_, htidy⟩, hkept⟩
    -- only a loop that has exited has closed its mailbox, and nobody knows that one
    refine Bool.eq_false_iff.mpr fun hclosed => ?_
    exact Stage.noConfusion
      ((closed_exited (hr.step hs) hclosed).symm.trans (hkept.running_of_installed hi))

theorem vigil_kept (h : Reachable config w) : w.vigil.Kept := (watched_kept h).2

theorem vigil_move (h : Reachable config w) (hs : w.step l = some v) : w.vigil.Move v.vigil := by
  obtain ⟨c, hm, _, rfl⟩ := move_step (watched_kept h).1 hs
  exact hm

theorem vigil_timeout (h : Reachable config w) : w.vigil.timeout = config.idleTimeout :=
  h.induction (P := fun w => w.vigil.timeout = config.idleTimeout) rfl fun _ _ _ hr hw hs =>
    (vigil_move hr hs).timeout.trans hw

end Steps

end Outbox.Worker
