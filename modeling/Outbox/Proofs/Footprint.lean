import Outbox.Proofs.Inversion

/-! # The footprint of a step

What a step leaves behind, said once for every label. A quiet step changes nothing that the runs,
the executors and the end of a worker depend on, and notes nothing about jobs. `Footprint` lists
what the other steps do beside it: they accept a job, change the keep-alive count, cancel a handle,
shut down, take the loop from one stage to the next, dispatch a job or take a run one step further.
Main statement: `step_footprint`. -/
namespace Outbox
set_option autoImplicit false

/-- What the loop is told apart from jobs and the request to quit. -/
def Message.isControl : Message → Bool
  | .disarmIdle | .armIdle | .armStop => true
  | .request _ | .idle | .quit => false

/-- Neither about a job on its way nor about the end of the worker. -/
def Event.isQuiet : Event → Bool
  | .posted _ m => m.isControl
  | .handled _ | .idleSet _ | .refused _ _ | .markedIdle | .signal _ => true
  | .link c => c != .shutdown
  | _ => false

def Event.isPosted : Event → Bool
  | .posted _ _ => true
  | _ => false

/-- The loop is past its look at the flag and not yet prepared. -/
def Stage.isOpening : Stage → Bool
  | .pointing | .opening | .awaitingOpen | .preparing => true
  | .absent | .entering | .running | .exited => false

def Label.isLook : Label → Bool
  | .submit _ _ | .lookAgain => true
  | _ => false

/-- Steps that may be quiet. -/
def Label.mayRest : Label → Bool
  | .submit _ _ | .lookAgain | .hold | .release | .cancel _ | .prepare _ | .dispatch _
  | .advance _ _ => false
  | _ => true

namespace Worker

/-! ## Quiet steps -/

/-- These events are quiet, and nothing is posted to a mailbox that producers do not know. -/
def Murmurs (w : Worker) (news : List JournalEntry) : Prop :=
  ∀ e ∈ news, e.event.isQuiet = true ∧ (w.installed = false → e.event.isPosted = false)

theorem Murmurs.nil (w : Worker) : w.Murmurs [] := List.forall_mem_nil _

theorem Murmurs.single {w : Worker} {e : JournalEntry} (he : e.event.isQuiet = true)
    (hp : e.event.isPosted = false) : w.Murmurs [e] :=
  List.forall_mem_singleton.mpr ⟨he, fun _ => hp⟩

theorem Murmurs.append {w : Worker} {news more : List JournalEntry} (h : w.Murmurs news)
    (h' : w.Murmurs more) : w.Murmurs (news ++ more) :=
  List.forall_mem_append.mpr ⟨h, h'⟩

inductive Quiet (w : Worker) : Worker → Prop
  | mk (now : Instant) (idle : Bool) (listeners : Listeners) (pushId : Option String)
      (rotation : Rotation) (waiting : Option Submission) (loop : Loop)
      (news : List JournalEntry) (hstage : loop.stage = w.loop.stage)
      (hclosed : loop.mailbox.closed = w.loop.mailbox.closed)
      (hnews : w.Murmurs news) :
      Quiet w { w with
        now, idle, listeners, pushId, rotation, waiting, loop, journal := news ++ w.journal }

namespace Quiet
variable {w v u : Worker}

theorem refl (w : Worker) : Quiet w w :=
  .mk _ _ _ _ _ _ _ [] rfl rfl (.nil w)

theorem trans (h : Quiet w v) (h' : Quiet v u) : Quiet w u := by
  obtain ⟨_, _, _, _, _, _, loop, news, hstage, hclosed, hnews⟩ := h
  obtain ⟨now, idle, listeners, pushId, rotation, waiting, loop', news', hstage', hclosed',
    hnews'⟩ := h'
  rw [← List.append_assoc]
  exact .mk now idle listeners pushId rotation waiting loop' (news' ++ news)
    (hstage'.trans hstage) (hclosed'.trans hclosed) (Murmurs.append hnews' hnews)

theorem log (w : Worker) {e : Event} (he : e.isQuiet = true) (hp : e.isPosted = false) :
    Quiet w (w.log e) :=
  .mk _ _ _ _ _ _ _ [⟨w.now, e⟩] rfl rfl (.single he hp)

theorem withLoop (w : Worker) {l : Loop} (hs : l.stage = w.loop.stage)
    (hc : l.mailbox.closed = w.loop.mailbox.closed) : Quiet w (w.withLoop l) :=
  .mk _ _ _ _ _ _ l [] hs hc (.nil w)

theorem noteWith (w : Worker) {l : Loop} {e : Event} (hs : l.stage = w.loop.stage)
    (hc : l.mailbox.closed = w.loop.mailbox.closed) (he : e.isQuiet = true)
    (hp : e.isPosted = false) : Quiet w ((w.withLoop l).log e) :=
  .mk _ _ _ _ _ _ l [⟨w.now, e⟩] hs hc (.single he hp)

theorem recount (h : Quiet w v) (keepAlive : KeepAlive) :
    Quiet { w with keepAlive } { v with keepAlive } := by
  obtain ⟨now, idle, listeners, pushId, rotation, waiting, loop, news, hstage, hclosed, hnews⟩ := h
  exact .mk now idle listeners pushId rotation waiting loop news hstage hclosed hnews

theorem keepAlive_eq (h : Quiet w v) : v.keepAlive = w.keepAlive := by
  cases h
  rfl

end Quiet

/-! ## Noting -/

theorem noted_eq (events : List Event) (v : Worker) :
    events.foldl log v =
      { v with journal := (events.map fun e => ⟨v.now, e⟩).reverse ++ v.journal } := by
  induction events generalizing v with
  | nil => rfl
  | cons e events ih =>
    rw [List.foldl_cons, ih, List.map_cons, List.reverse_cons, List.append_assoc]
    rfl

/-! ## Posting -/

theorem closed_post (m : Mailbox Message) (now : Instant) (x : Message) (d : Duration) :
    (m.post now x d).2.closed = m.closed := by
  unfold Mailbox.post
  split <;> rfl

/-- A closed mailbox takes nothing, and nothing is noted then. -/
theorem post_eq (w : Worker) (m : Message) (d : Duration) :
    w.post m d = (!w.loop.mailbox.closed, { w with
      loop := { w.loop with mailbox := (w.loop.mailbox.post w.now m d).2 }
      journal :=
        (if w.loop.mailbox.closed then [] else [⟨w.now, .posted d m⟩]) ++ w.journal }) := by
  unfold post Mailbox.post
  cases hc : w.loop.mailbox.closed <;> rfl

/-- Only a loop whose mailbox producers know hears anything. -/
theorem notify_eq (w : Worker) (m : Message) :
    w.notify m = { w with
      loop := if w.installed then { w.loop with mailbox := (w.loop.mailbox.post w.now m .zero).2 }
        else w.loop
      journal :=
        (if w.installed then
          if w.loop.mailbox.closed then [] else [⟨w.now, .posted .zero m⟩]
        else []) ++ w.journal } := by
  by_cases hin : w.installed = true
  · simp only [notify, if_pos hin, post_eq]
  · simp only [notify, if_neg hin, List.nil_append]

theorem quiet_notify (w : Worker) {m : Message} (hm : m.isControl = true) :
    Quiet w (w.notify m) := by
  rw [notify_eq]
  refine .mk _ _ _ _ _ _ _ _ ?_ ?_ ?_
  · split <;> rfl
  · split
    · exact closed_post _ _ _ _
    · rfl
  · split
    · rename_i hin
      split
      · exact .nil w
      · exact List.forall_mem_singleton.mpr ⟨hm, fun hn => Bool.noConfusion (hn.symm.trans hin)⟩
    · exact .nil w

/-! ## Submissions -/

/-- A submission is refused, goes on waiting or is accepted; an accepted job is posted once, and
whoever marked the worker idle hears of it. -/
inductive Looked (w : Worker) (s : Submission) : Worker → Prop
  | quiet {v : Worker} (hv : Quiet w v) : Looked w s v
  | accepted (idle : Bool) (wake : List JournalEntry) (hi : w.interrupted = false)
      (hin : w.installed = true) (hclosed : w.loop.mailbox.closed = false)
      (hwake : ∀ e ∈ wake, e.event.isQuiet = true ∧ e.event.isPosted = false) :
      Looked w s { w with
        idle, waiting := none
        loop := { w.loop with mailbox := (w.loop.mailbox.post w.now (.request s.job) s.delay).2 }
        journal := wake ++ ⟨w.now, .accepted s.job.id⟩ ::
          ⟨w.now, .posted s.delay (.request s.job)⟩ :: w.journal }

theorem quiet_refuse (w : Worker) (job : Job) (r : Refusal) : Quiet w (w.refuse job r) :=
  .mk _ _ _ _ _ none _ [⟨w.now, .refused job.id r⟩] rfl rfl (.single rfl rfl)

theorem wake_eq (w : Worker) :
    ∃ idle wake, (∀ e ∈ wake, e.event.isQuiet = true ∧ e.event.isPosted = false) ∧
      w.wake = { w with idle, journal := wake ++ w.journal } := by
  unfold wake
  split
  · exact ⟨false, [⟨w.now, .signal .startKeepAlive⟩], List.forall_mem_singleton.mpr ⟨rfl, rfl⟩, rfl⟩
  · exact ⟨w.idle, [], List.forall_mem_nil _, rfl⟩

theorem readiness_eq_ready {w : Worker} {attempts : UInt32} (h : w.readiness attempts = .ready) :
    w.interrupted = false ∧ w.installed = true := by
  unfold readiness at h
  split at h
  · cases h
  · rename_i hi
    split at h
    · exact ⟨Bool.eq_false_iff.mpr hi, by assumption⟩
    · split at h <;> cases h

theorem accept_spec (w : Worker) {s : Submission} (hi : w.interrupted = false)
    (hin : w.installed = true) : Looked w s (w.accept s.job s.delay).2 := by
  unfold accept
  rw [post_eq]
  cases hc : w.loop.mailbox.closed with
  | true =>
    have hpost : (w.loop.mailbox.post w.now (.request s.job) s.delay).2 = w.loop.mailbox := by
      rw [Mailbox.post, if_pos hc]
    rw [hpost]
    exact .quiet (quiet_refuse w s.job .notReady)
  | false =>
    let p : Worker := { w with
      waiting := none
      loop := { w.loop with mailbox := (w.loop.mailbox.post w.now (.request s.job) s.delay).2 }
      journal := ⟨w.now, .posted s.delay (.request s.job)⟩ :: w.journal }
    obtain ⟨idle, wake, hwake, he⟩ := wake_eq (p.log (.accepted s.job.id))
    have h := Looked.accepted idle wake hi hin hc hwake (s := s)
    change Looked w s (p.log (.accepted s.job.id)).wake
    rw [he]
    exact h

theorem look_spec (w : Worker) (s : Submission) : Looked w s (w.look s).2 := by
  unfold look
  split
  · rename_i hr
    obtain ⟨hi, hin⟩ := readiness_eq_ready hr
    exact accept_spec w hi hin
  · exact .quiet (quiet_refuse w s.job _)
  · exact .quiet (.mk _ _ _ _ _ (some _) _ [] rfl rfl (.nil w))

theorem look_of_interrupted {w : Worker} (h : w.interrupted = true) (s : Submission) :
    w.look s = (some (.error .interrupted), w.refuse s.job .interrupted) := by
  have hr : w.readiness s.attempts = .refused .interrupted := if_pos h
  unfold look
  rw [hr]

/-! ## What callers ask for -/

theorem quiet_hold (w : Worker) : Quiet { w with keepAlive := w.keepAlive.hold } w.hold :=
  quiet_notify _ rfl

theorem quiet_release (w : Worker) :
    Quiet { w with keepAlive := w.keepAlive.release } w.release := by
  unfold release
  dsimp only
  split
  · exact .refl _
  · exact quiet_notify _ rfl

/-- What an executor that could not be started leaves is quiet, but for what it used up and the
note of it. -/
theorem unstarted_spec (w : Worker) (job : Job) :
    ∃ u, Quiet { w.spent job with keepAlive := w.keepAlive.hold.release } u ∧
      w.unstarted job = u.log (.unstarted job.id) := by
  have hhold := quiet_hold (w.spent job)
  have hrelease := quiet_release (w.spent job).hold
  have hcount : (w.spent job).hold.keepAlive = w.keepAlive.hold := hhold.keepAlive_eq
  rw [hcount] at hrelease
  exact ⟨_, (hhold.recount w.keepAlive.hold.release).trans hrelease, rfl⟩

/-- But for what a run held, what it leaves is quiet. -/
theorem freed_spec (w : Worker) (r : Run) :
    ∃ tickets keepAlive,
      Quiet { w with inFlight := w.givenBack r, tickets, keepAlive } (w.freed r) := by
  unfold freed
  split
  · rename_i ticket handle _
    exact ⟨_, _, quiet_release
      { w with inFlight := w.givenBack r, tickets := (w.tickets.remove ticket).2 }⟩
  · exact ⟨w.tickets, w.keepAlive, .refl _⟩

theorem quiet_markIdle (w : Worker) : Quiet w w.markIdle :=
  have hmarked : Quiet w ({ w with idle := true }.log .markedIdle) :=
    .mk _ true _ _ _ _ _ [⟨w.now, .markedIdle⟩] rfl rfl (.single rfl rfl)
  hmarked.trans (quiet_notify _ rfl)

theorem rotate_eq (w : Worker) :
    ∃ rotation news, w.Murmurs news ∧
      w.rotate = { w with rotation, journal := news ++ w.journal } := by
  unfold rotate
  split
  · dsimp only
    split
    · rename_i e _
      exact ⟨w.rotation.next.2, [⟨w.now, .link (.point e)⟩], .single rfl rfl, rfl⟩
    · exact ⟨w.rotation.next.2, [], .nil w, rfl⟩
  · exact ⟨w.rotation, [], .nil w, rfl⟩

theorem quiet_rotate (w : Worker) : Quiet w w.rotate := by
  obtain ⟨rotation, news, hnews, he⟩ := rotate_eq w
  rw [he]
  exact .mk _ _ _ _ rotation _ _ news rfl rfl hnews

/-- What a shutdown notes: that the loop is asked to quit, if producers know it, and that the
connection is shut down. -/
def farewell (w : Worker) : List JournalEntry :=
  (if w.linked then [⟨w.now, .link .shutdown⟩] else []) ++
    if w.installed then if w.loop.mailbox.closed then [] else [⟨w.now, .posted .zero .quit⟩] else []

/-- The state after the shutdown that interrupts. -/
def silenced (w : Worker) : Worker :=
  { w with
    interrupted := true, installed := false, linked := false
    tickets := w.tickets.drain.2
    handles := w.handles.cancelAll w.tickets.drain.1
    loop := if w.installed then { w.loop with mailbox := (w.loop.mailbox.post w.now .quit .zero).2 }
      else w.loop
    journal := w.farewell ++ w.journal }

theorem silenced_loop {w : Worker} (hin : w.installed = false) : w.silenced.loop = w.loop :=
  if_neg (Bool.eq_false_iff.mp hin)

theorem silenced_stage (w : Worker) : w.silenced.loop.stage = w.loop.stage := by
  unfold silenced
  dsimp only
  split <;> rfl

theorem shutdown_of_interrupted {w : Worker} (h : w.interrupted = true) : w.shutdown = w :=
  if_pos h

theorem shutdown_eq {w : Worker} (h : w.interrupted = false) : w.shutdown = w.silenced := by
  let canceled : Worker := { w with
    interrupted := true
    tickets := w.tickets.drain.2
    handles := w.handles.cancelAll w.tickets.drain.1 }
  let quit : Worker := { canceled.notify .quit with installed := false }
  have hs : w.shutdown =
      if quit.linked then { quit with linked := false }.log (.link .shutdown) else quit :=
    if_neg (Bool.eq_false_iff.mp h)
  have hquit : quit = _ := congrArg (fun x : Worker => { x with installed := false })
    (notify_eq canceled .quit)
  rw [hs, hquit]
  unfold silenced farewell
  cases w.linked with
  | true => simp only [canceled, if_pos, log, List.cons_append, List.nil_append]
  | false => simp only [canceled, if_neg Bool.false_ne_true, List.nil_append]

theorem shutdown_interrupted (w : Worker) : w.shutdown.interrupted = true := by
  cases hi : w.interrupted with
  | true =>
    rw [shutdown_of_interrupted hi]
    exact hi
  | false =>
    rw [shutdown_eq hi]
    rfl

/-! ## The loop -/

theorem takeInAll_closed (l : Loop) : (takeInAll l).mailbox.closed = l.mailbox.closed := by
  have hfold : ∀ (letters : List (Letter Message)) (k : Loop),
      (letters.foldl takeIn k).mailbox = k.mailbox := by
    intro letters
    induction letters with
    | nil => exact fun k => rfl
    | cons letter letters ih =>
      intro k
      rw [List.foldl_cons, ih]
      unfold takeIn
      split <;> rfl
  have h := congrArg Mailbox.closed (hfold l.mailbox.letters l)
  exact h

theorem quiet_handle (w : Worker) (e : TimerQueue.Entry Message) : Quiet w (w.handle e) := by
  have hnoted : Quiet w ((w.withLoop { w.loop with dirty := true }).log (.handled e)) :=
    .noteWith w rfl rfl rfl rfl
  refine hnoted.trans ?_
  unfold handle
  dsimp only
  split
  case h_2 =>
    split
    · exact .log _ rfl rfl
    · exact .refl _
  all_goals exact .withLoop _ rfl rfl

theorem quiet_setIdleTimer (w : Worker) : Quiet w w.setIdleTimer := by
  unfold setIdleTimer
  split
  · dsimp only
    split
    · exact .withLoop w rfl rfl
    · exact .noteWith w rfl rfl rfl rfl
  · exact .refl w

theorem quiet_askForStop (w : Worker) : Quiet w w.askForStop := by
  unfold askForStop
  split
  · dsimp only
    split
    · exact .noteWith w rfl rfl rfl rfl
    · exact .withLoop w rfl rfl
  · exact .refl w

theorem quiet_comeToRest (w : Worker) : Quiet w w.comeToRest := by
  have hclean : Quiet w (w.withLoop { w.loop with dirty := false }) := .withLoop w rfl rfl
  exact hclean.trans ((quiet_setIdleTimer _).trans (quiet_askForStop _))

/-- A round either finds that it has to quit or is quiet. -/
theorem iterate_spec (w : Worker) :
    ((takeInAll w.loop).quitting = true ∧
        w.iterate = (w.withLoop (takeInAll w.loop)).exitLoop) ∨
      ((takeInAll w.loop).quitting = false ∧ Quiet w w.iterate) := by
  have htake : Quiet w (w.withLoop (takeInAll w.loop)) :=
    .withLoop w (takeInAll_facts w.loop).1 (takeInAll_closed w.loop)
  unfold iterate
  dsimp only
  split
  · rename_i hq
    exact .inl ⟨hq, rfl⟩
  · rename_i hq
    refine .inr ⟨Bool.eq_false_iff.mpr hq, htake.trans ?_⟩
    split
    · rename_i e queue _
      refine Quiet.trans ?_ (quiet_handle _ e)
      exact .withLoop _ rfl rfl
    · split
      · exact quiet_comeToRest _
      · exact .refl _

/-- What the replay of pending jobs notes. -/
def replay (w : Worker) (pending : List Job) : List JournalEntry :=
  if w.loop.mailbox.closed then []
  else (pending.map fun job => ⟨w.now, .posted .zero (.request job)⟩).reverse

theorem prepare_eq (w : Worker) (pending : List Job) :
    ∃ mailbox : Mailbox Message, mailbox.closed = w.loop.mailbox.closed ∧
      w.prepare pending = { w with
        installed := true
        stats := { w.stats with startedAt := some w.now }
        loop := { w.loop with mailbox, stage := .running, idleArmed := !w.keepAlive.isHeld }
        journal := w.replay pending ++ w.journal } := by
  have hfold : ∀ (jobs : List Job) (v : Worker),
      ∃ mailbox : Mailbox Message, mailbox.closed = v.loop.mailbox.closed ∧
        jobs.foldl (fun v job => (v.post (.request job) .zero).2) v =
          { v with loop := { v.loop with mailbox }, journal := v.replay jobs ++ v.journal } := by
    intro jobs
    induction jobs with
    | nil =>
      intro v
      refine ⟨v.loop.mailbox, rfl, ?_⟩
      unfold replay
      cases v.loop.mailbox.closed <;> rfl
    | cons job jobs ih =>
      intro v
      obtain ⟨mailbox, hclosed, he⟩ := ih (v.post (.request job) .zero).2
      rw [post_eq] at hclosed he
      refine ⟨mailbox, hclosed.trans (closed_post _ _ _ _), ?_⟩
      rw [List.foldl_cons, post_eq, he]
      unfold replay
      dsimp only
      rw [closed_post]
      cases v.loop.mailbox.closed with
      | true => rfl
      | false => simp
  obtain ⟨mailbox, hclosed, he⟩ := hfold pending w
  refine ⟨mailbox, hclosed, ?_⟩
  unfold prepare
  rw [he]

/-! ## Every step -/

inductive Footprint (w : Worker) : Label → Worker → Prop
  | quiet {l : Label} {v : Worker} (hl : l.mayRest = true) (hv : Quiet w v) : Footprint w l v
  | look {l : Label} {v : Worker} (s : Submission) (hl : l.isLook = true) (hv : Looked w s v) :
      Footprint w l v
  | hold {v : Worker} (hv : Quiet { w with keepAlive := w.keepAlive.hold } v) :
      Footprint w .hold v
  | release {v : Worker} (hv : Quiet { w with keepAlive := w.keepAlive.release } v) :
      Footprint w .release v
  | cancel (handle : Handle) (hmade : handle.serial < w.handles.made) :
      Footprint w (.cancel handle) (w.cancel handle)
  | shutdown (hi : w.interrupted = false) : Footprint w .shutdown w.silenced
  | start (hs : w.loop.stage = .absent) :
      Footprint w .start { w with loop := { stage := .entering } }
  | join (hs : w.loop.stage = .exited) : Footprint w .join { w with loop := {} }
  | enter (hs : w.loop.stage = .entering) : Footprint w .enter w.enter
  | climb {l : Label} (s : Stage) (rotation : Rotation) (news : List JournalEntry)
      (hl : l.mayRest = true) (hfrom : w.loop.stage.isOpening = true) (hto : s.isOpening = true)
      (hnews : w.Murmurs news) :
      Footprint w l { w with
        rotation, loop := { w.loop with stage := s }, journal := news ++ w.journal }
  | prepare (pending : List Job) (mailbox : Mailbox Message) (hs : w.loop.stage = .preparing)
      (hclosed : mailbox.closed = w.loop.mailbox.closed) :
      Footprint w (.prepare pending) { w with
        installed := true
        stats := { w.stats with startedAt := some w.now }
        loop := { w.loop with mailbox, stage := .running, idleArmed := !w.keepAlive.isHeld }
        journal := w.replay pending ++ w.journal }
  | close (hs : w.loop.stage = .running) (hq : (takeInAll w.loop).quitting = true) :
      Footprint w .iterate (w.withLoop (takeInAll w.loop)).exitLoop
  | dispatch {v : Worker} (view : View) (job : Job) (hp : w.loop.picked = some job)
      (hd : Dispatched (w.withLoop { w.loop with picked := none }) job view v) :
      Footprint w (.dispatch view) v
  | advance {v : Worker} (r : Run) (reply : Reply) (hr : r ∈ w.runs)
      (ha : w.advanceRun? r reply = some v) : Footprint w (.advance r.id reply) v

theorem footprint_point {w : Worker} (hs : w.loop.stage = .pointing) :
    Footprint w .point w.point := by
  have hfrom : w.loop.stage.isOpening = true := hs ▸ rfl
  unfold point
  split
  · obtain ⟨rotation, news, hnews, he⟩ := rotate_eq w
    rw [he]
    exact .climb .opening rotation news rfl hfrom rfl hnews
  · exact .climb .preparing _ [] rfl hfrom rfl (.nil w)

theorem step_footprint {w v : Worker} {l : Label} (h : w.step l = some v) : Footprint w l v := by
  cases l with
  | submit job delay =>
    obtain ⟨_, rfl⟩ := submit_of_step h
    exact .look _ rfl (look_spec w _)
  | lookAgain =>
    obtain ⟨s, _, rfl⟩ := lookAgain_of_step h
    exact .look s rfl (look_spec w s)
  | addListener | removeListener | setPushId =>
    cases h
    exact .quiet rfl (.mk _ _ _ _ _ _ _ [] rfl rfl (.nil w))
  | childTerminated =>
    cases h
    exact .quiet rfl (.refl w)
  | hold =>
    cases h
    exact .hold (quiet_hold w)
  | release =>
    cases h
    exact .release (quiet_release w)
  | markIdle =>
    obtain ⟨_, rfl⟩ := markIdle_of_step h
    exact .quiet rfl (quiet_markIdle w)
  | childRespawning reason =>
    cases h
    exact .quiet rfl (quiet_rotate w)
  | cancel handle =>
    obtain ⟨hmade, rfl⟩ := cancel_of_step h
    exact .cancel handle hmade
  | shutdown =>
    cases h
    cases hi : w.interrupted with
    | true => exact .quiet rfl ((shutdown_of_interrupted hi).symm ▸ .refl w)
    | false => exact (shutdown_eq hi).symm ▸ .shutdown hi
  | start =>
    cases h
    unfold start
    split
    · rename_i hs
      exact .start hs
    · exact .quiet rfl (.refl w)
  | join =>
    cases h
    unfold join
    split
    · exact .quiet rfl (.refl w)
    · rename_i hs
      exact .join hs
    · exact .quiet rfl (.refl w)
  | tick d =>
    obtain ⟨_, rfl⟩ := tick_of_step h
    exact .quiet rfl (.mk _ _ _ _ _ _ _ [] rfl rfl (.nil w))
  | enter =>
    obtain ⟨hs, rfl⟩ := atStage_eq_some h
    exact .enter hs
  | point =>
    obtain ⟨hs, rfl⟩ := atStage_eq_some h
    exact footprint_point hs
  | openLink =>
    obtain ⟨hs, rfl⟩ := atStage_eq_some h
    exact .climb .awaitingOpen _ [⟨w.now, .link .start⟩] rfl (hs ▸ rfl) rfl (.single rfl rfl)
  | opened =>
    obtain ⟨hs, rfl⟩ := atStage_eq_some h
    exact .climb .preparing _ [] rfl (hs ▸ rfl) rfl (.nil w)
  | prepare pending =>
    obtain ⟨hs, rfl⟩ := atStage_eq_some h
    obtain ⟨mailbox, hclosed, he⟩ := prepare_eq w pending
    rw [he]
    exact .prepare pending mailbox hs hclosed
  | iterate =>
    obtain ⟨hfree, rfl⟩ := iterate_of_step h
    rcases iterate_spec w with ⟨hq, he⟩ | ⟨_, hv⟩
    · rw [he]
      exact .close (loopFree_facts hfree).1 hq
    · exact .quiet rfl hv
  | dispatch view =>
    obtain ⟨job, hp, rfl⟩ := dispatch_of_step h
    exact .dispatch view job hp (dispatch_spec _ job view)
  | advance id reply =>
    obtain ⟨r, hr, rfl, hrun⟩ := advance_of_step h
    exact .advance r reply hr hrun

end Worker

end Outbox
