import Outbox.Proofs.Runs.Finish

/-! # How long a submission waits

A submission looks whether the loop is ready, and between two looks everybody else goes on. What
the others leave alone meanwhile is little: the configuration, the submission itself and the idle
flag, which a waiting submission holds. `Waits` follows one submission through whatever its looks
find, and `Settles` says what the next look makes of it. Main statement:
`submission_waits_within_bounds`. -/
namespace Outbox.Worker
set_option autoImplicit false

variable {config : Config} {u w w' v : Worker} {l : Label} {job : Job} {delay : Duration}
  {seen : List Worker} {s : Submission}

/-! ## While a submission waits -/

/-- Anything else may have changed. -/
structure Meanwhile (w v : Worker) : Prop where
  config : v.config = w.config
  waiting : v.waiting = w.waiting
  idle : v.idle = w.idle

namespace Meanwhile

theorem refl (w : Worker) : w.Meanwhile w := ⟨rfl, rfl, rfl⟩

theorem trans (h : w.Meanwhile w') (h' : w'.Meanwhile v) : w.Meanwhile v where
  config := h'.config.trans h.config
  waiting := h'.waiting.trans h.waiting
  idle := h'.idle.trans h.idle

theorem notify (w : Worker) (m : Message) : w.Meanwhile (w.notify m) := by
  rw [notify_eq]
  exact ⟨rfl, rfl, rfl⟩

theorem hold (w : Worker) : w.Meanwhile w.hold :=
  have hheld : w.Meanwhile { w with keepAlive := w.keepAlive.hold } := ⟨rfl, rfl, rfl⟩
  hheld.trans (notify _ _)

theorem release (w : Worker) : w.Meanwhile w.release := by
  have hreleased : w.Meanwhile { w with keepAlive := w.keepAlive.release } := ⟨rfl, rfl, rfl⟩
  unfold Worker.release
  dsimp only
  split
  · exact hreleased
  · exact hreleased.trans (notify _ _)

theorem rotate (w : Worker) : w.Meanwhile w.rotate := by
  obtain ⟨rotation, news, _, he⟩ := rotate_eq w
  rw [he]
  exact ⟨rfl, rfl, rfl⟩

theorem shutdown (w : Worker) : w.Meanwhile w.shutdown := by
  cases hi : w.interrupted with
  | true =>
    rw [shutdown_of_interrupted hi]
    exact refl w
  | false =>
    rw [shutdown_eq hi]
    exact ⟨rfl, rfl, rfl⟩

/-! ### The loop -/

theorem handle (w : Worker) (e : TimerQueue.Entry Message) : w.Meanwhile (w.handle e) := by
  unfold Worker.handle
  dsimp only
  split
  case h_2 => split <;> exact ⟨rfl, rfl, rfl⟩
  all_goals exact ⟨rfl, rfl, rfl⟩

theorem setIdleTimer (w : Worker) : w.Meanwhile w.setIdleTimer := by
  unfold Worker.setIdleTimer
  split
  · dsimp only
    split <;> exact ⟨rfl, rfl, rfl⟩
  · exact refl w

theorem askForStop (w : Worker) : w.Meanwhile w.askForStop := by
  unfold Worker.askForStop
  split
  · dsimp only
    split <;> exact ⟨rfl, rfl, rfl⟩
  · exact refl w

theorem comeToRest (w : Worker) : w.Meanwhile w.comeToRest :=
  have hclean : w.Meanwhile (w.withLoop { w.loop with dirty := false }) := ⟨rfl, rfl, rfl⟩
  hclean.trans ((setIdleTimer _).trans (askForStop _))

theorem iterate (w : Worker) : w.Meanwhile w.iterate := by
  have htaken : w.Meanwhile (w.withLoop (takeInAll w.loop)) := ⟨rfl, rfl, rfl⟩
  unfold Worker.iterate
  dsimp only
  split
  · exact htaken.trans ⟨rfl, rfl, rfl⟩
  · split
    · rename_i e queue _
      have hpopped : w.Meanwhile (w.withLoop { takeInAll w.loop with queue }) := ⟨rfl, rfl, rfl⟩
      exact hpopped.trans (handle _ e)
    · split
      · exact htaken.trans (comeToRest _)
      · exact htaken

theorem prepare (w : Worker) (pending : List Job) : w.Meanwhile (w.prepare pending) := by
  obtain ⟨mailbox, _, he⟩ := prepare_eq w pending
  rw [he]
  exact ⟨rfl, rfl, rfl⟩

/-! ### The runs -/

theorem unstarted (w : Worker) (job : Job) : w.Meanwhile (w.unstarted job) := by
  have hspent : w.Meanwhile (w.spent job) := ⟨rfl, rfl, rfl⟩
  exact hspent.trans ((hold _).trans ((release _).trans ⟨rfl, rfl, rfl⟩))

theorem dispatch (w : Worker) (job : Job) (view : View) : w.Meanwhile (w.dispatch job view) := by
  have hd := dispatch_spec w job view
  generalize w.dispatch job view = v at hd
  cases hd with
  | detached claim inFlight listeners custom =>
    have hadmitted : w.Meanwhile (w.admitting inFlight listeners) := ⟨rfl, rfl, rfl⟩
    exact hadmitted.trans ((hold _).trans ⟨rfl, rfl, rfl⟩)
  | unstarted =>
    have hadmitted : w.Meanwhile (w.admitting w.inFlight w.listeners) := ⟨rfl, rfl, rfl⟩
    exact hadmitted.trans (unstarted _ job)
  | closed | duplicate | refused | inline => exact ⟨rfl, rfl, rfl⟩

theorem freed (w : Worker) (r : Run) : w.Meanwhile (w.freed r) := by
  unfold Worker.freed
  split
  · rename_i ticket _ _
    have hgiven : w.Meanwhile
        { w with inFlight := w.givenBack r, tickets := (w.tickets.remove ticket).2 } :=
      ⟨rfl, rfl, rfl⟩
    exact hgiven.trans (release _)
  · exact ⟨rfl, rfl, rfl⟩

theorem exit (w : Worker) (r : Run) : w.Meanwhile (w.exit r) := by
  rw [exit_eq]
  exact (freed w r).trans ⟨rfl, rfl, rfl⟩

/-- A run that wants its job retried waits until no submission does. -/
theorem advance {r : Run} {reply : Reply} (hg : w.gateOpen = false)
    (h : w.advanceRun? r reply = some v) : w.Meanwhile v := by
  cases advanceRun_strode h with
  | stride book hs =>
    rw [noted_eq]
    exact ⟨rfl, rfl, rfl⟩
  | requeued _ hopen => exact absurd hopen (Bool.eq_false_iff.mp hg)
  | ended => exact exit w r

end Meanwhile

theorem waiting_of_gateOpen (hg : w.gateOpen = true) : w.waiting = none :=
  Option.isNone_iff_eq_none.mp hg

/-- Only its own looks change a submission that waits, and only a submission makes one wait. -/
theorem meanwhile_of_step (h : w.step l = some v) :
    w.Meanwhile v ∨ l = .lookAgain ∨
      w.gateOpen = true ∧ (v.waiting = none ∨ ∃ job delay, l = .submit job delay) := by
  cases l with
  | submit job delay =>
    obtain ⟨hg, _⟩ := submit_of_step h
    exact .inr (.inr ⟨hg, .inr ⟨job, delay, rfl⟩⟩)
  | lookAgain => exact .inr (.inl rfl)
  | markIdle =>
    obtain ⟨hg, rfl⟩ := markIdle_of_step h
    have hm := Meanwhile.notify ({ w with idle := true }.log .markedIdle) .armStop
    have hwaiting : w.markIdle.waiting = w.waiting := hm.waiting
    exact .inr (.inr ⟨hg, .inl (hwaiting.trans (waiting_of_gateOpen hg))⟩)
  | addListener | removeListener | setPushId | childTerminated =>
    cases h
    exact .inl ⟨rfl, rfl, rfl⟩
  | hold =>
    cases h
    exact .inl (.hold w)
  | release =>
    cases h
    exact .inl (.release w)
  | childRespawning reason =>
    cases h
    exact .inl (.rotate w)
  | cancel handle =>
    obtain ⟨_, rfl⟩ := cancel_of_step h
    exact .inl ⟨rfl, rfl, rfl⟩
  | shutdown =>
    cases h
    exact .inl (.shutdown w)
  | start =>
    cases h
    unfold start
    split <;> exact .inl ⟨rfl, rfl, rfl⟩
  | join =>
    cases h
    unfold join
    split <;> exact .inl ⟨rfl, rfl, rfl⟩
  | tick d =>
    obtain ⟨_, rfl⟩ := tick_of_step h
    exact .inl ⟨rfl, rfl, rfl⟩
  | enter | openLink | opened =>
    obtain ⟨_, rfl⟩ := atStage_eq_some h
    exact .inl ⟨rfl, rfl, rfl⟩
  | point =>
    obtain ⟨_, rfl⟩ := atStage_eq_some h
    unfold point
    split
    · exact .inl ((Meanwhile.rotate w).trans ⟨rfl, rfl, rfl⟩)
    · exact .inl ⟨rfl, rfl, rfl⟩
  | prepare pending =>
    obtain ⟨_, rfl⟩ := atStage_eq_some h
    exact .inl (.prepare w pending)
  | iterate =>
    obtain ⟨_, rfl⟩ := iterate_of_step h
    exact .inl (.iterate w)
  | dispatch view =>
    obtain ⟨job, _, rfl⟩ := dispatch_of_step h
    have hpicked : w.Meanwhile (w.withLoop { w.loop with picked := none }) := ⟨rfl, rfl, rfl⟩
    exact .inl (hpicked.trans (.dispatch _ job view))
  | advance id reply =>
    obtain ⟨r, _, rfl, hrun⟩ := advance_of_step h
    cases hg : w.gateOpen with
    | false => exact .inl (.advance hg hrun)
    | true =>
      cases advanceRun_strode hrun with
      | stride book hs =>
        rw [noted_eq]
        exact .inl ⟨rfl, rfl, rfl⟩
      | requeued => exact .inr (.inr ⟨rfl, .inl (waiting_look (UInt32.le_refl _))⟩)
      | ended => exact .inl (.exit w r)

/-! ## One look -/

theorem look_of_lookAgain (hi : w.interrupted = false) (hin : w.installed = false)
    (hs : s.attempts < w.config.submitAttempts) :
    w.look s = (none, { w with waiting := some { s with attempts := s.attempts + 1 } }) := by
  have hr : w.readiness s.attempts = .lookAgain := by
    rw [readiness, hi, hin, if_neg Bool.false_ne_true, if_neg Bool.false_ne_true,
      if_neg (UInt32.not_le.mpr hs)]
  unfold look
  rw [hr]

theorem look_of_exhausted (hi : w.interrupted = false) (hin : w.installed = false)
    (hs : w.config.submitAttempts ≤ s.attempts) :
    w.look s = (some (.error .notReady), w.refuse s.job .notReady) := by
  have hr : w.readiness s.attempts = .refused .notReady := by
    rw [readiness, hi, hin, if_neg Bool.false_ne_true, if_neg Bool.false_ne_true, if_pos hs]
  unfold look
  rw [hr]

theorem look_eq_accept (hi : w.interrupted = false) (hin : w.installed = true) :
    w.look s = (some (w.accept s.job s.delay).1, (w.accept s.job s.delay).2) := by
  have hr : w.readiness s.attempts = .ready := by
    rw [readiness, hi, hin, if_neg Bool.false_ne_true, if_pos rfl]
  unfold look
  rw [hr]

theorem accept_of_closed (hc : w.loop.mailbox.closed = true) :
    w.accept job delay = (.error .notReady, w.refuse job .notReady) := by
  have hpost : w.post (.request job) delay = (false, w) := by
    unfold post Mailbox.post
    rw [if_pos hc]
  unfold accept
  rw [hpost]

theorem loop_wake (w : Worker) : w.wake.loop = w.loop := by
  unfold wake
  split <;> rfl

theorem accept_of_open (hc : w.loop.mailbox.closed = false) :
    (w.accept job delay).1 = .ok () ∧
      (w.accept job delay).2.loop = { w.loop with mailbox := { w.loop.mailbox with
        letters := w.loop.mailbox.letters ++ [⟨Instant.after w.now delay, .request job⟩] } } := by
  have hmail : w.loop.mailbox.post w.now (.request job) delay = (true, { w.loop.mailbox with
      letters := w.loop.mailbox.letters ++ [⟨Instant.after w.now delay, .request job⟩] }) :=
    if_neg (Bool.eq_false_iff.mp hc)
  unfold accept post
  rw [hmail]
  exact ⟨rfl, loop_wake _⟩

/-- Whatever a look finds, it lets the submission wait on, or refuses it and does nothing else, or
accepts it. -/
inductive Looks (w : Worker) (s : Submission) : Option (Except Refusal Unit) × Worker → Prop
  | again (hi : w.interrupted = false) (hin : w.installed = false)
      (hs : s.attempts < w.config.submitAttempts) :
      Looks w s (none, { w with waiting := some { s with attempts := s.attempts + 1 } })
  | refused (r : Refusal) : Looks w s (some (.error r), w.refuse s.job r)
  | accepted (hi : w.interrupted = false) (hin : w.installed = true)
      (hc : w.loop.mailbox.closed = false) :
      Looks w s (some (.ok ()), (w.accept s.job s.delay).2)

theorem looks (w : Worker) (s : Submission) : Looks w s (w.look s) := by
  cases hi : w.interrupted with
  | true =>
    rw [look_of_interrupted hi]
    exact .refused .interrupted
  | false =>
    cases hin : w.installed with
    | true =>
      rw [look_eq_accept hi hin]
      cases hc : w.loop.mailbox.closed with
      | true =>
        rw [accept_of_closed hc]
        exact .refused .notReady
      | false =>
        rw [(accept_of_open hc).1]
        exact .accepted hi hin hc
    | false =>
      by_cases hs : s.attempts < w.config.submitAttempts
      · rw [look_of_lookAgain hi hin hs]
        exact .again hi hin hs
      · rw [look_of_exhausted hi hin (UInt32.not_lt.mp hs)]
        exact .refused .notReady

theorem look_eq_none (h : w.look s = (none, v)) :
    w.interrupted = false ∧ w.installed = false ∧ s.attempts < w.config.submitAttempts ∧
      v = { w with waiting := some { s with attempts := s.attempts + 1 } } := by
  have hlooks := looks w s
  rw [h] at hlooks
  cases hlooks with
  | again hi hin hs => exact ⟨hi, hin, hs, rfl⟩

/-- A submission that still waits after a look was not answered. -/
theorem look_of_waiting {s' : Submission} (h : (w.look s).2.waiting = some s') :
    w.look s = (none, (w.look s).2) := by
  have hlooks := looks w s
  generalize w.look s = answer at h hlooks
  cases hlooks with
  | again => rfl
  | refused r => cases h
  | accepted =>
    rw [waiting_accept] at h
    cases h

/-! ## One submission -/

/-- A submission that began in `u` is about to look at the worker; `seen` are the states that its
looks have found so far. -/
inductive Waits (u : Worker) (job : Job) (delay : Duration) :
    List Worker → Worker → Submission → Prop
  | first : Waits u job delay [] u { job, delay }
  | again {seen : List Worker} {v w w' : Worker} {s s' : Submission}
      (h : Waits u job delay seen v s) (hl : v.look s = (none, w)) (hm : w.Meanwhile w')
      (hs : w'.waiting = some s') : Waits u job delay (seen ++ [v]) w' s'

/-- What the next look of a submission answers, and what it does. -/
structure Settles (u : Worker) (job : Job) (delay : Duration) (seen : List Worker) (w : Worker)
    (s : Submission) : Prop where
  /-- The counter did not overflow. -/
  counted : s.attempts.toNat = seen.length
  bounded : seen.length ≤ u.config.submitAttempts.toNat
  /-- No look before this one found anything to answer. -/
  unanswered : ∀ v ∈ seen, v.interrupted = false ∧ v.installed = false
  interrupted : w.interrupted = true → (w.look s).1 = some (.error .interrupted)
  posted : w.interrupted = false → w.installed = true → w.loop.mailbox.closed = false →
    (w.look s).1 = some (.ok ()) ∧
      (w.look s).2.loop = { w.loop with mailbox := { w.loop.mailbox with
        letters := w.loop.mailbox.letters ++ [⟨Instant.after w.now delay, .request job⟩] } }
  gone : w.interrupted = false → w.installed = true → w.loop.mailbox.closed = true →
    (w.look s).1 = some (.error .notReady)
  exhausted : w.interrupted = false → w.installed = false →
    seen.length = u.config.submitAttempts.toNat → (w.look s).1 = some (.error .notReady)
  waits : w.interrupted = false → w.installed = false →
    seen.length < u.config.submitAttempts.toNat → w.look s =
      (none, { w with waiting := some { job, delay, attempts := s.attempts + 1 } })
  /-- All or nothing: the job is not posted, and nobody is told to keep the worker alive. -/
  refused : ∀ r, (w.look s).1 = some (.error r) → (w.look s).2.loop = w.loop ∧
    (w.look s).2.idle = u.idle ∧
    (w.look s).2.journal = ⟨w.now, .refused job.id r⟩ :: w.journal

/-- What a submission carries from look to look. -/
structure Carries (u : Worker) (job : Job) (delay : Duration) (seen : List Worker) (w : Worker)
    (s : Submission) : Prop where
  job : s.job = job
  delay : s.delay = delay
  config : w.config = u.config
  idle : w.idle = u.idle
  counted : s.attempts.toNat = seen.length
  bounded : seen.length ≤ u.config.submitAttempts.toNat
  unanswered : ∀ v ∈ seen, v.interrupted = false ∧ v.installed = false

theorem Carries.again {s' : Submission} (h : Carries u job delay seen v s)
    (hl : v.look s = (none, w)) (hm : w.Meanwhile w') (hs : w'.waiting = some s') :
    Carries u job delay (seen ++ [v]) w' s' := by
  obtain ⟨hi, hin, hlt, rfl⟩ := look_eq_none hl
  obtain rfl : { s with attempts := s.attempts + 1 } = s' :=
    Option.some.inj (hm.waiting.symm.trans hs)
  have hbelow : s.attempts.toNat < u.config.submitAttempts.toNat := by
    rw [← h.config]
    exact UInt32.lt_iff_toNat_lt.mp hlt
  -- the counter is below the bound, which it shares its type with
  have hnext : (s.attempts + 1).toNat = s.attempts.toNat + 1 := by
    have hsize := u.config.submitAttempts.toNat_lt
    rw [UInt32.toNat_add, UInt32.toNat_one]
    exact Nat.mod_eq_of_lt (by omega)
  have hcounted := h.counted
  refine ⟨h.job, h.delay, hm.config.trans h.config, hm.idle.trans h.idle, ?_, ?_, ?_⟩
  · rw [List.length_append, List.length_singleton, ← hcounted]
    exact hnext
  · rw [List.length_append, List.length_singleton, ← hcounted]
    exact hbelow
  · exact List.forall_mem_append.mpr ⟨h.unanswered, List.forall_mem_singleton.mpr ⟨hi, hin⟩⟩

theorem Waits.carries (h : Waits u job delay seen w s) : Carries u job delay seen w s := by
  induction h with
  | first => exact ⟨rfl, rfl, rfl, rfl, rfl, Nat.zero_le _, List.forall_mem_nil _⟩
  | again _ hl hm hs ih => exact ih.again hl hm hs

theorem Waits.settles (h : Waits u job delay seen w s) : Settles u job delay seen w s := by
  obtain ⟨hjob, hdelay, hconfig, hidle, hcounted, hbounded, hunanswered⟩ := h.carries
  refine ⟨hcounted, hbounded, hunanswered, ?_, ?_, ?_, ?_, ?_, ?_⟩
  · intro hi
    rw [look_of_interrupted hi]
  · intro hi hin hc
    rw [look_eq_accept hi hin, hjob, hdelay]
    exact ⟨congrArg some (accept_of_open hc).1, (accept_of_open hc).2⟩
  · intro hi hin hc
    rw [look_eq_accept hi hin, accept_of_closed hc]
  · intro hi hin hlast
    have hle : w.config.submitAttempts ≤ s.attempts := by
      rw [UInt32.le_iff_toNat_le, hconfig]
      omega
    rw [look_of_exhausted hi hin hle]
  · intro hi hin hless
    have hlt : s.attempts < w.config.submitAttempts := by
      rw [UInt32.lt_iff_toNat_lt, hconfig]
      omega
    rw [look_of_lookAgain hi hin hlt, ← hjob, ← hdelay]
  · intro r hr
    have hlooks := looks w s
    generalize w.look s = answer at hr hlooks
    cases hlooks with
    | again => cases hr
    | accepted => cases hr
    | refused r' =>
      obtain rfl : r' = r := by
        cases hr
        rfl
      rw [← hjob]
      exact ⟨rfl, hidle, rfl⟩

/-! ## In a run of the worker -/

/-- A submission that waits comes from looks that found nothing to answer. -/
theorem waits_of_waiting (h : Reachable config w) :
    ∀ s, w.waiting = some s → ∃ u job delay seen v s₀ v', Reachable config u ∧
      Waits u job delay seen v s₀ ∧ v.look s₀ = (none, v') ∧ v'.Meanwhile w := by
  refine h.induction (P := fun w => ∀ s, w.waiting = some s → ∃ u job delay seen v s₀ v',
    Reachable config u ∧ Waits u job delay seen v s₀ ∧ v.look s₀ = (none, v') ∧
      v'.Meanwhile w) (fun s hs => ?_) ?_
  · cases hs
  intro w l w' hw ih hstep s hs
  rcases meanwhile_of_step hstep with hm | rfl | ⟨hg, hnone | ⟨job, delay, rfl⟩⟩
  · obtain ⟨u, job, delay, seen, v, s₀, v', hu, hwaits, hlook, hv⟩ :=
      ih s (hm.waiting.symm.trans hs)
    exact ⟨u, job, delay, seen, v, s₀, v', hu, hwaits, hlook, hv.trans hm⟩
  · obtain ⟨s₁, hs₁, rfl⟩ := lookAgain_of_step hstep
    obtain ⟨u, job, delay, seen, v, s₀, v', hu, hwaits, hlook, hv⟩ := ih s₁ hs₁
    exact ⟨u, job, delay, seen ++ [v], w, s₁, _, hu, .again hwaits hlook hv hs₁,
      look_of_waiting hs, .refl _⟩
  · rw [hnone] at hs
    cases hs
  · obtain ⟨_, rfl⟩ := submit_of_step hstep
    exact ⟨w, job, delay, [], w, _, _, hw, .first, look_of_waiting hs, .refl _⟩

/-- Whatever the looks of a submission find, there is at most one more of them than the
configuration allows attempts, and the one that answers either posts the job once or leaves the
loop, the idle flag and the one who keeps the worker alone. Every submission that waits in a run of
the worker is such a one. -/
theorem submission_waits_within_bounds :
    (∀ {u job delay seen w s}, Waits u job delay seen w s → Settles u job delay seen w s) ∧
      ∀ {config w s}, Reachable config w → w.waiting = some s →
        ∃ u seen, Reachable config u ∧ Waits u s.job s.delay seen w s := by
  refine ⟨Waits.settles, fun {config w s} hw hs => ?_⟩
  obtain ⟨u, job, delay, seen, v, s₀, v', hu, hwaits, hlook, hv⟩ := waits_of_waiting hw s hs
  have hnow : Waits u job delay (seen ++ [v]) w s := hwaits.again hlook hv hs
  have hcarries := hnow.carries
  refine ⟨u, seen ++ [v], hu, ?_⟩
  rw [hcarries.job, hcarries.delay]
  exact hnow

/-- A job that is submitted before there is a loop to take it. -/
def early : Job where
  id := .ofNat 1
  isAsync := false
  plan := .finish (.ok ⟨"sent"⟩)

theorem early_submission_posted_once :
    ∃ w s, Reachable { submitAttempts := 1 } w ∧ w.waiting = some s ∧ w.interrupted = false ∧
      w.installed = true ∧ w.loop.mailbox.closed = false ∧
      (w.look s).1 = some (.ok ()) ∧
      (w.look s).2.loop.mailbox.letters = [⟨Instant.after 0 .zero, .request early⟩] := by
  have hrun : ∃ w, (create { submitAttempts := 1 } 0).steps (.submit early .zero :: opening) =
      some w ∧ w.waiting = some ⟨early, .zero, 1⟩ ∧ w.interrupted = false ∧ w.installed = true ∧
      w.loop.mailbox = {} ∧ w.now = 0 :=
    ⟨_, rfl, rfl, rfl, rfl, rfl, rfl⟩
  obtain ⟨w, hsteps, hs, hi, hin, hmail, hnow⟩ := hrun
  have hw : Reachable { submitAttempts := 1 } w := ⟨_, hsteps⟩
  have hc : w.loop.mailbox.closed = false := congrArg Mailbox.closed hmail
  obtain ⟨u, seen, _, hwaits⟩ := submission_waits_within_bounds.2 hw hs
  obtain ⟨hok, hloop⟩ := (submission_waits_within_bounds.1 hwaits).posted hi hin hc
  refine ⟨w, _, hw, hs, hi, hin, hc, hok, ?_⟩
  rw [hloop, hmail, hnow]
  rfl

end Outbox.Worker
