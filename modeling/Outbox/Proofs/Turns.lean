import Outbox.Proofs.Footprint
import Outbox.Proofs.Reach

/-! # Turns in the life of a worker

Most steps are steady: the loop stays at its stage, and whoever knew its mailbox still does. The
others take the loop to another stage or shut the worker down. Only a shutdown parts with anyone:
no other step asks the loop to quit or closes the connection. Main statement: `step_turn`. -/
namespace Outbox
set_option autoImplicit false

/-- The loop is asked to quit, or the connection is shut down. -/
def Event.isParting : Event → Bool
  | .posted _ .quit | .link .shutdown => true
  | _ => false

def Event.accepted? : Event → Option JobId
  | .accepted job => some job
  | _ => none

/-- The job that is posted. -/
def Event.request? : Event → Option JobId
  | .posted _ (.request job) => some job.id
  | _ => none

def Label.isPrepare : Label → Bool
  | .prepare _ => true
  | _ => false

section Events
variable {e : Event}

theorem Event.isParting_of_isQuiet (h : e.isQuiet = true) : e.isParting = false := by
  cases e with
  | posted d m => cases m <;> first | rfl | cases h
  | link c => cases c <;> first | rfl | cases h
  | _ => rfl

theorem Event.accepted?_of_isQuiet (h : e.isQuiet = true) : e.accepted? = none := by
  cases e <;> first | rfl | cases h

theorem Event.request?_of_isQuiet (h : e.isQuiet = true) : e.request? = none := by
  cases e with
  | posted d m => cases m <;> first | rfl | cases h
  | _ => rfl

theorem Event.routine_of_byRun (h : e.byRun = true) :
    e.isParting = false ∧ e.isPosted = false ∧ e.accepted? = none ∧ e.request? = none := by
  cases e <;> first | exact ⟨rfl, rfl, rfl, rfl⟩ | cases h

end Events

/-- The stages that a loop passes before it prepares, and the way back to none. -/
inductive Stage.Shift (interrupted : Bool) : Stage → Stage → Prop
  | start : Shift interrupted .absent .entering
  | join : Shift interrupted .exited .absent
  | giveUp (hi : interrupted = true) : Shift interrupted .entering .exited
  | enter (hi : interrupted = false) : Shift interrupted .entering .pointing
  | climb {s t : Stage} (hs : s.isOpening = true) (ht : t.isOpening = true) : Shift interrupted s t

namespace Worker

/-- What is noted where no loop prepares: nobody is parted with, nothing is posted to a mailbox
that producers do not know, and the jobs that are posted are the ones that are accepted. -/
structure Routine (w : Worker) (news : List JournalEntry) : Prop where
  parting : ∀ e ∈ news, e.event.isParting = false
  mute : w.installed = false → ∀ e ∈ news, e.event.isPosted = false
  matched : news.filterMap (·.event.accepted?) = news.filterMap (·.event.request?)

namespace Routine
variable {w : Worker} {news more : List JournalEntry}

theorem nil (w : Worker) : w.Routine [] :=
  ⟨List.forall_mem_nil _, fun _ => List.forall_mem_nil _, rfl⟩

theorem append (h : w.Routine news) (h' : w.Routine more) : w.Routine (news ++ more) where
  parting := List.forall_mem_append.mpr ⟨h.parting, h'.parting⟩
  mute hn := List.forall_mem_append.mpr ⟨h.mute hn, h'.mute hn⟩
  matched := by rw [List.filterMap_append, List.filterMap_append, h.matched, h'.matched]

/-- Nothing is posted and nothing accepted. -/
theorem of_none (h : ∀ e ∈ news, e.event.isParting = false ∧ e.event.isPosted = false ∧
    e.event.accepted? = none ∧ e.event.request? = none) : w.Routine news where
  parting e he := (h e he).1
  mute _ e he := (h e he).2.1
  matched := by
    rw [List.filterMap_eq_nil_iff.mpr fun e he => (h e he).2.2.1,
      List.filterMap_eq_nil_iff.mpr fun e he => (h e he).2.2.2]

theorem of_murmurs (h : w.Murmurs news) : w.Routine news where
  parting e he := Event.isParting_of_isQuiet (h e he).1
  mute hn e he := (h e he).2 hn
  matched := by
    rw [List.filterMap_eq_nil_iff.mpr fun e he => Event.accepted?_of_isQuiet (h e he).1,
      List.filterMap_eq_nil_iff.mpr fun e he => Event.request?_of_isQuiet (h e he).1]

end Routine

/-- The worker is not interrupted in between and parts with nobody. -/
structure Onward (w v : Worker) : Prop where
  interrupted : v.interrupted = w.interrupted
  news : ∃ news, v.journal = news ++ w.journal ∧ ∀ e ∈ news, e.event.isParting = false

/-- Nor does it post a job that it did not accept. -/
structure Ordinary (w v : Worker) : Prop where
  interrupted : v.interrupted = w.interrupted
  news : ∃ news, v.journal = news ++ w.journal ∧ w.Routine news

/-- Nor does the loop come to another stage. -/
structure Steady (w v : Worker) : Prop extends Ordinary w v where
  installed : v.installed = w.installed
  stage : v.loop.stage = w.loop.stage

namespace Ordinary
variable {w v : Worker}

theorem onward (h : Ordinary w v) : Onward w v := by
  obtain ⟨news, hj, hnews⟩ := h.news
  exact ⟨h.interrupted, news, hj, hnews.parting⟩

theorem of_same (hi : v.interrupted = w.interrupted) (hj : v.journal = w.journal) :
    Ordinary w v :=
  ⟨hi, [], hj, .nil w⟩

end Ordinary

namespace Steady
variable {w v u : Worker}

theorem trans (h : Steady w v) (h' : Steady v u) : Steady w u := by
  obtain ⟨news, hj, hnews⟩ := h.news
  obtain ⟨news', hj', hnews'⟩ := h'.news
  have hmore : w.Routine news' :=
    { hnews' with mute := fun hn => hnews'.mute (h.installed.trans hn) }
  refine ⟨⟨h'.interrupted.trans h.interrupted, news' ++ news, ?_, hmore.append hnews⟩,
    h'.installed.trans h.installed, h'.stage.trans h.stage⟩
  rw [hj', hj, List.append_assoc]

theorem of_same (hi : v.interrupted = w.interrupted) (hin : v.installed = w.installed)
    (hs : v.loop.stage = w.loop.stage) (hj : v.journal = w.journal) : Steady w v :=
  ⟨.of_same hi hj, hin, hs⟩

theorem of_note {e : JournalEntry} (hi : v.interrupted = w.interrupted)
    (hin : v.installed = w.installed) (hs : v.loop.stage = w.loop.stage)
    (hj : v.journal = e :: w.journal) (he : e.event.isParting = false ∧
      e.event.isPosted = false ∧ e.event.accepted? = none ∧ e.event.request? = none) :
    Steady w v :=
  ⟨⟨hi, [e], hj, .of_none (List.forall_mem_singleton.mpr he)⟩, hin, hs⟩

theorem of_quiet (h : Quiet w v) : Steady w v := by
  obtain ⟨_, _, _, _, _, _, loop, news, hstage, _, hnews⟩ := h
  exact ⟨⟨rfl, news, rfl, .of_murmurs hnews⟩, rfl, hstage⟩

theorem of_looked {s : Submission} (h : Looked w s v) : Steady w v := by
  cases h with
  | quiet hv => exact .of_quiet hv
  | accepted idle wake hi hin _ hwake =>
    have hquiet : w.Murmurs wake := fun e he => ⟨(hwake e he).1, fun _ => (hwake e he).2⟩
    have hposted : w.Routine [⟨w.now, .accepted s.job.id⟩,
        ⟨w.now, .posted s.delay (.request s.job)⟩] :=
      { parting := List.forall_mem_cons.mpr ⟨rfl, List.forall_mem_singleton.mpr rfl⟩
        mute := fun hn => Bool.noConfusion (hn.symm.trans hin)
        matched := rfl }
    refine ⟨⟨rfl, _, ?_, (Routine.of_murmurs hquiet).append hposted⟩, rfl, rfl⟩
    rw [List.append_assoc]
    rfl

theorem recount (w : Worker) (keepAlive : KeepAlive) : Steady w { w with keepAlive } :=
  .of_same rfl rfl rfl rfl

theorem hold (w : Worker) : Steady w w.hold :=
  (recount w _).trans (.of_quiet (quiet_hold w))

theorem release (w : Worker) : Steady w w.release :=
  (recount w _).trans (.of_quiet (quiet_release w))

theorem of_dispatched {job : Job} {view : View} (h : Dispatched w job view v) : Steady w v := by
  cases h with
  | closed | duplicate | refused | inline =>
    exact .of_note rfl rfl rfl rfl ⟨rfl, rfl, rfl, rfl⟩
  | detached claim s listeners custom =>
    obtain ⟨_, _, _, _, _, hl⟩ := launch_spec (w.admitting s listeners) job claim custom
    have hadmitted : Steady w (w.admitting s listeners) := .of_same rfl rfl rfl rfl
    rw [hl]
    exact hadmitted.trans ((hold _).trans (.of_note rfl rfl rfl rfl ⟨rfl, rfl, rfl, rfl⟩))
  | unstarted =>
    have hspent : Steady w ((w.admitting w.inFlight w.listeners).spent job) :=
      .of_same rfl rfl rfl rfl
    exact hspent.trans ((hold _).trans ((release _).trans (.of_note rfl rfl rfl rfl
      ⟨rfl, rfl, rfl, rfl⟩)))

theorem freed (w : Worker) (r : Run) : Steady w (w.freed r) := by
  obtain ⟨tickets, keepAlive, hquiet⟩ := freed_spec w r
  have hgiven : Steady w { w with inFlight := w.givenBack r, tickets, keepAlive } :=
    .of_same rfl rfl rfl rfl
  exact hgiven.trans (.of_quiet hquiet)

theorem of_advanced {r : Run} {reply : Reply} (h : Advanced w r reply v) : Steady w v := by
  cases h with
  | going reply succeeded failed requeued book events p _ hevents =>
    rw [noted_eq]
    refine ⟨⟨rfl, _, rfl, .of_none fun e he => ?_⟩, rfl, rfl⟩
    obtain ⟨event, hmem, rfl⟩ := List.mem_map.mp (List.mem_reverse.mp he)
    exact Event.routine_of_byRun (hevents event hmem)
  | requeued =>
    have hlooked := of_looked (look_spec w
      { job := r.job, delay := w.config.retryDelay, attempts := w.config.submitAttempts })
    exact hlooked.trans (.of_same rfl rfl rfl rfl)
  | ended =>
    obtain ⟨listeners, he⟩ := exit_spec w r
    rw [he]
    exact (freed w r).trans (.of_note rfl rfl rfl rfl ⟨rfl, rfl, rfl, rfl⟩)

end Steady

/-! ## Every step -/

inductive Turn (w : Worker) : Label → Worker → Prop
  | steady {l : Label} {v : Worker} (hl : l.isPrepare = false) (h : Steady w v) : Turn w l v
  | silenced (hi : w.interrupted = false) : Turn w .shutdown w.silenced
  | shifted {l : Label} {v : Worker} (hl : l.isPrepare = false) (ho : Ordinary w v)
      (hin : v.installed = w.installed)
      (hs : Stage.Shift w.interrupted w.loop.stage v.loop.stage) : Turn w l v
  | prepared {v : Worker} (pending : List Job) (hi : v.interrupted = w.interrupted)
      (hs : w.loop.stage = .preparing) (hs' : v.loop.stage = .running) (hin : v.installed = true)
      (hj : v.journal = w.replay pending ++ w.journal) : Turn w (.prepare pending) v
  | closed {v : Worker} (ho : Ordinary w v) (hs : w.loop.stage = .running)
      (hq : (takeInAll w.loop).quitting = true) (hs' : v.loop.stage = .exited)
      (hin : v.installed = false) : Turn w .iterate v

theorem step_turn {w v : Worker} {l : Label} (h : w.step l = some v) : Turn w l v := by
  have hrest : ∀ {l : Label}, l.mayRest = true ∨ l.isLook = true → l.isPrepare = false := by
    rintro l (hl | hl) <;> cases l <;> first | rfl | cases hl
  cases step_footprint h with
  | quiet hl hv => exact .steady (hrest (.inl hl)) (.of_quiet hv)
  | look s hl hv => exact .steady (hrest (.inr hl)) (.of_looked hv)
  | hold hv | release hv => exact .steady rfl ((Steady.recount w _).trans (.of_quiet hv))
  | cancel => exact .steady rfl (.of_same rfl rfl rfl rfl)
  | shutdown hi => exact .silenced hi
  | start hs =>
    refine .shifted rfl (.of_same rfl rfl) rfl ?_
    rw [hs]
    exact .start
  | join hs =>
    refine .shifted rfl (.of_same rfl rfl) rfl ?_
    rw [hs]
    exact .join
  | enter hs =>
    refine .shifted rfl (.of_same rfl rfl) rfl ?_
    rw [hs]
    change Stage.Shift w.interrupted .entering (if w.interrupted then .exited else .pointing)
    cases hi : w.interrupted with
    | true => exact .giveUp rfl
    | false => exact .enter rfl
  | climb s rotation news hl hfrom hto hnews =>
    exact .shifted (hrest (.inl hl)) ⟨rfl, news, rfl, .of_murmurs hnews⟩ rfl (.climb hfrom hto)
  | prepare pending mailbox hs => exact .prepared pending rfl hs rfl rfl rfl
  | close hs hq => exact .closed (.of_same rfl rfl) hs hq rfl rfl
  | dispatch view job _ hd =>
    have hloop : Steady w (w.withLoop { w.loop with picked := none }) := .of_same rfl rfl rfl rfl
    exact .steady rfl (hloop.trans (.of_dispatched hd))
  | advance r reply _ ha => exact .steady rfl (.of_advanced (advanceRun_spec ha))

theorem onward_of_replay {w v : Worker} {pending : List Job} (hi : v.interrupted = w.interrupted)
    (hj : v.journal = w.replay pending ++ w.journal) : Onward w v := by
  refine ⟨hi, _, hj, fun e he => ?_⟩
  unfold replay at he
  split at he
  · cases he
  · obtain ⟨job, _, rfl⟩ := List.mem_map.mp (List.mem_reverse.mp he)
    rfl

/-- Only the shutdown that interrupts parts with anyone. -/
theorem step_onward {w v : Worker} {l : Label} (h : w.step l = some v) :
    (l = .shutdown ∧ w.interrupted = false ∧ v = w.silenced) ∨ Onward w v := by
  cases step_turn h with
  | silenced hi => exact .inl ⟨rfl, hi, rfl⟩
  | steady _ hv => exact .inr hv.onward
  | shifted _ ho | closed ho => exact .inr ho.onward
  | prepared pending hi _ _ _ hj => exact .inr (onward_of_replay hi hj)

theorem preparing_of_step {w v : Worker} {l : Label} (h : w.step l = some v)
    (hl : l.isPrepare = true) : w.loop.stage = .preparing := by
  cases l with
  | prepare pending => exact (atStage_eq_some h).1
  | _ => cases hl

theorem interrupted_of_step {w v : Worker} {l : Label} (hi : w.interrupted = true)
    (h : w.step l = some v) : v.interrupted = true := by
  rcases step_onward h with ⟨_, hopen, _⟩ | ho
  · cases hopen.symm.trans hi
  · exact ho.interrupted.trans hi

theorem interrupted_of_steps {w v : Worker} {ls : List Label} (hi : w.interrupted = true)
    (h : w.steps ls = some v) : v.interrupted = true := by
  induction ls generalizing w with
  | nil =>
    cases h
    exact hi
  | cons l ls ih =>
    obtain ⟨u, hl, hu⟩ := steps_cons_eq_some.mp h
    exact ih (interrupted_of_step hi hl) hu

end Worker

end Outbox
