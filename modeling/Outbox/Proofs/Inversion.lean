import Outbox.Proofs.InFlight.Admission
import Outbox.Worker.Step

/-! # What a step can do

Each part of a step is taken apart once: what it needs of the state that it starts from, and which
fields of that state it changes. `dispatch_spec` lists what can become of a job at hand, and
`advanceRun_strode` what a run can do next, stride by stride. `advanceRun_spec` is what all strides
have in common: they only count, note and tell. -/
namespace Outbox
set_option autoImplicit false

/-- Something that a run does itself while its job is executed and its listeners are told. -/
def Event.byRun : Event → Bool
  | .told _ _ _ | .reported _ _ | .sent _ _ | .returned _ _ | .finished _ _ | .succeeded _
  | .failed _ _ | .abandoned _ _ | .voted _ _ _ => true
  | _ => false

/-- The run that does this, if a run does. -/
def Event.run? : Event → Option Nat
  | .told run _ _ | .reported run _ | .sent run _ | .returned run _ | .finished run _
  | .succeeded run | .failed run _ | .abandoned run _ | .voted run _ _ | .ended run => some run
  | _ => none

def Event.isSuccess : Event → Bool
  | .succeeded _ => true
  | _ => false

def Event.isFailure : Event → Bool
  | .failed _ _ => true
  | _ => false

def Phase.isLate : Phase → Bool
  | .requeueing | .exiting => true
  | _ => false

/-- The run is about to ask for a retry. -/
def Phase.isRequest : Phase → Bool
  | .requeueing => true
  | _ => false

namespace Listeners

/-- A run registers the listener that its job brings along unless it is registered already. The
first answer is the one that the run has to take off again. -/
def enlist (l : Listeners) (lane : Lane) : Option ListenerName → Option ListenerName × Listeners
  | none => (none, l)
  | some name =>
    if name ∈ (l.on lane).members then (none, l) else (some name, (l.add lane name).2)

def strike (l : Listeners) (lane : Lane) : Option ListenerName → Listeners
  | none => l
  | some name => (l.remove lane name).2

theorem set_on (l : Listeners) (lane : Lane) : l.set lane (l.on lane) = l := by
  cases lane <;> rfl

theorem set_set (l : Listeners) (lane : Lane) (r r' : Registry ListenerName) :
    (l.set lane r).set lane r' = l.set lane r' := by
  cases lane <;> rfl

theorem strike_enlist (l : Listeners) (lane : Lane) (brings : Option ListenerName) :
    (l.enlist lane brings).2.strike lane (l.enlist lane brings).1 = l := by
  cases brings with
  | none => rfl
  | some name =>
    by_cases hm : name ∈ (l.on lane).members
    · simp only [enlist, if_pos hm, strike]
    · simp only [enlist, if_neg hm, strike, add, remove, on_set_self, set_set,
        Registry.remove_add _ _ hm, set_on]

end Listeners

namespace Worker

variable {w w' : Worker}

/-! ## Guards -/

theorem submit_of_step {job : Job} {d : Duration} (h : w.step (.submit job d) = some w') :
    w.gateOpen = true ∧ w' = (w.look { job, delay := d }).2 := by
  simp only [step] at h
  split at h
  · rename_i hg
    cases h
    exact ⟨hg, rfl⟩
  · cases h

theorem lookAgain_of_step (h : w.step .lookAgain = some w') :
    ∃ s, w.waiting = some s ∧ w' = (w.look s).2 := by
  obtain ⟨s, hs, rfl⟩ := Option.map_eq_some_iff.mp h
  exact ⟨s, hs, rfl⟩

theorem markIdle_of_step (h : w.step .markIdle = some w') :
    w.gateOpen = true ∧ w' = w.markIdle := by
  simp only [step] at h
  split at h
  · rename_i hg
    cases h
    exact ⟨hg, rfl⟩
  · cases h

theorem cancel_of_step {handle : Handle} (h : w.step (.cancel handle) = some w') :
    handle.serial < w.handles.made ∧ w' = w.cancel handle := by
  simp only [step] at h
  split at h
  · rename_i hmade
    cases h
    exact ⟨hmade, rfl⟩
  · cases h

theorem tick_of_step {d : Duration} (h : w.step (.tick d) = some w') :
    w.now + d.nanos + Duration.farFuture.nanos < Instant.limit ∧
      w' = { w with now := w.now + d.nanos } := by
  simp only [step, tick?] at h
  split at h
  · rename_i hlimit
    cases h
    exact ⟨hlimit, rfl⟩
  · cases h

theorem atStage_eq_some {next : Worker} {s : Stage} (h : w.atStage s next = some w') :
    w.loop.stage = s ∧ w' = next := by
  unfold atStage at h
  split at h
  · rename_i hs
    cases h
    exact ⟨hs, rfl⟩
  · cases h

theorem iterate_of_step (h : w.step .iterate = some w') :
    w.loopFree = true ∧ w' = w.iterate := by
  simp only [step] at h
  split at h
  · rename_i hg
    cases h
    exact ⟨(Bool.and_eq_true_iff.mp hg).1, rfl⟩
  · cases h

theorem dispatch_of_step {view : View} (h : w.step (.dispatch view) = some w') :
    ∃ job, w.loop.picked = some job ∧
      w' = (w.withLoop { w.loop with picked := none }).dispatch job view := by
  simp only [step, dispatchPicked?] at h
  split at h
  · cases h
  · rename_i job hp
    cases h
    exact ⟨job, hp, rfl⟩

theorem advance_of_step {id : Nat} {reply : Reply} (h : w.step (.advance id reply) = some w') :
    ∃ r ∈ w.runs, r.id = id ∧ w.advanceRun? r reply = some w' := by
  obtain ⟨r, hr, hrun⟩ := Option.bind_eq_some_iff.mp h
  unfold findRun? at hr
  have hid := List.find?_some hr
  exact ⟨r, List.mem_of_find?_eq_some hr, beq_iff_eq.mp hid, hrun⟩

/-- The loop goes round only with nothing at hand and no run on it. -/
theorem loopFree_facts (h : w.loopFree = true) :
    w.loop.stage = .running ∧ w.loop.picked = none ∧ ∀ r ∈ w.runs, r.kind.onLoop = false := by
  simp only [loopFree, Bool.and_eq_true, beq_iff_eq, Option.isNone_iff_eq_none, Bool.not_eq_true',
    List.any_eq_false, Bool.not_eq_true] at h
  exact ⟨h.1.1, h.1.2, h.2⟩

/-! ## Letters -/

theorem takeIn_facts (l : Loop) (letter : Letter Message) :
    (takeIn l letter).stage = l.stage ∧ (takeIn l letter).picked = l.picked := by
  unfold takeIn
  split <;> exact ⟨rfl, rfl⟩

theorem takeInAll_facts (l : Loop) :
    (takeInAll l).stage = l.stage ∧ (takeInAll l).picked = l.picked ∧
      (takeInAll l).mailbox.letters = [] := by
  have hfold : ∀ (letters : List (Letter Message)) (k : Loop),
      (letters.foldl takeIn k).stage = k.stage ∧ (letters.foldl takeIn k).picked = k.picked := by
    intro letters
    induction letters with
    | nil => exact fun k => ⟨rfl, rfl⟩
    | cons letter letters ih =>
      intro k
      obtain ⟨hstage, hpicked⟩ := takeIn_facts k letter
      rw [List.foldl_cons, (ih _).1, (ih _).2]
      exact ⟨hstage, hpicked⟩
  exact ⟨(hfold l.mailbox.letters l).1, (hfold l.mailbox.letters l).2, rfl⟩

/-! ## Registration -/

theorem registerCustom_eq (w : Worker) (job : Job) :
    w.registerCustom job = ((w.listeners.enlist job.lane job.listener).1,
      { w with listeners := (w.listeners.enlist job.lane job.listener).2 }) := by
  unfold registerCustom
  cases job.listener with
  | none => rfl
  | some name =>
    by_cases hm : name ∈ (w.listeners.on job.lane).members
    · simp only [addListener, Listeners.add, Registry.add, if_pos hm, Listeners.enlist,
        Listeners.set_on]
    · simp only [addListener, Listeners.add, Registry.add, if_neg hm, Listeners.enlist]

theorem unregister_eq (w : Worker) (lane : Lane) (custom : Option ListenerName) :
    w.unregister lane custom = { w with listeners := w.listeners.strike lane custom } := by
  cases custom <;> rfl

/-! ## Dispatch -/

/-- Nothing speaks against a run but the job's own message. -/
def isOpen (w : Worker) (view : View) : Bool :=
  !w.interrupted && (w.linked && view.connected) && !view.canceled

theorem not_interrupted_of_isOpen {w : Worker} {view : View} (h : w.isOpen view = true) :
    w.interrupted = false := by
  simp only [isOpen, Bool.and_eq_true, Bool.not_eq_true'] at h
  exact h.1.1

/-- There is a thread for a run of the job, the loop's or one for an executor. -/
def View.houses (view : View) (job : Job) : Bool := job.lane == .inline || view.spawns

theorem View.houses_of_inline {view : View} {job : Job} (h : job.lane = .inline) :
    view.houses job = true := by
  rw [houses, h]
  rfl

theorem View.houses_of_detached {view : View} {job : Job} (h : job.lane = .detached) :
    view.houses job = view.spawns := by
  rw [houses, h]
  rfl

/-- A job is about to run. -/
def admitting (w : Worker) (inFlight : InFlight) (listeners : Listeners) : Worker :=
  { w with listeners, inFlight, stats := { w.stats with dispatched := w.stats.dispatched + 1 } }

/-- A handle and a ticket are used up, and the job observes the handle. -/
def spent (w : Worker) (job : Job) : Worker :=
  let (handle, handles) := w.handles.make (w.executorName job)
  let (ticket, tickets) := w.tickets.insert handle
  { w with handles, tickets := (tickets.remove ticket).2, book := w.book.attach job.id handle }

/-- An executor that could not be started leaves no run behind; the loop hears of the hold and of
its release. -/
def unstarted (w : Worker) (job : Job) : Worker :=
  (w.spent job).hold.release.log (.unstarted job.id)

inductive Dispatched (w : Worker) (job : Job) (view : View) : Worker → Prop
  | closed (r : DropReason) (hr : r ≠ .duplicate) (ho : w.isOpen view = false) :
      Dispatched w job view (w.drop job r)
  | duplicate (s : InFlight) (ho : w.isOpen view = true)
      (hc : claimFor w.inFlight job = .ok (.duplicate, s)) :
      Dispatched w job view (w.drop job .duplicate)
  | refused (p : MessageUri.Problem) (listeners : Listeners) (custom : Option ListenerName)
      (ho : w.isOpen view = true) (hc : claimFor w.inFlight job = .error p)
      (he : w.listeners.enlist job.lane job.listener = (custom, listeners)) :
      Dispatched w job view ({ w with listeners }.begin
        job .refused none custom (.failing (Failure.ofInvalid p.toInvalid)))
  | inline (claim : Option MessageId) (s : InFlight) (listeners : Listeners)
      (custom : Option ListenerName) (ho : w.isOpen view = true)
      (hc : claimFor w.inFlight job = .ok (.proceed claim, s)) (hl : job.lane = .inline)
      (he : w.listeners.enlist job.lane job.listener = (custom, listeners)) :
      Dispatched w job view ((w.admitting s listeners).begin job .inline claim custom .ready)
  | detached (claim : Option MessageId) (s : InFlight) (listeners : Listeners)
      (custom : Option ListenerName) (ho : w.isOpen view = true)
      (hc : claimFor w.inFlight job = .ok (.proceed claim, s)) (hl : job.lane = .detached)
      (he : w.listeners.enlist job.lane job.listener = (custom, listeners))
      (hs : view.spawns = true) :
      Dispatched w job view ((w.admitting s listeners).launch job claim custom true)
  | unstarted (claim : Option MessageId) (s : InFlight) (ho : w.isOpen view = true)
      (hc : claimFor w.inFlight job = .ok (.proceed claim, s)) (hl : job.lane = .detached)
      (hs : view.spawns = false) :
      Dispatched w job view ((w.admitting w.inFlight w.listeners).unstarted job)

/-- A hold neither reads nor changes what an executor is made of. -/
theorem hold_with (w : Worker) (config : Config) (inFlight : InFlight) (listeners : Listeners)
    (handles : Handles) (tickets : Tickets) (book : JobBook) :
    ({ w with config, inFlight, listeners, handles, tickets, book } : Worker).hold =
      { w.hold with config, inFlight, listeners, handles, tickets, book } := by
  unfold hold notify post
  dsimp only
  split
  · split <;> rfl
  · rfl

theorem release_with (w : Worker) (inFlight : InFlight) (listeners : Listeners) :
    ({ w with inFlight, listeners } : Worker).release = { w.release with inFlight, listeners } := by
  unfold release notify post
  dsimp only
  split
  · rfl
  split
  · split <;> rfl
  · rfl

/-- A claim is the first one of its id or none at all, so giving it back undoes it. -/
theorem release_claimFor {s s' : InFlight} {job : Job} {claim : Option MessageId}
    (h : claimFor s job = .ok (.proceed claim, s')) :
    claim.elim s' (fun id => (s'.release id).2) = s := by
  rcases claimFor_proceed h with ⟨id, rfl, _, _, rfl⟩ | ⟨rfl, rfl, _⟩
  · simp [InFlight.release]
  · rfl

theorem launch_unstarted {w : Worker} {job : Job} {claim : Option MessageId} {s : InFlight}
    {custom : Option ListenerName} {listeners : Listeners}
    (hc : claimFor w.inFlight job = .ok (.proceed claim, s))
    (he : w.listeners.enlist job.lane job.listener = (custom, listeners)) :
    (w.admitting s listeners).launch job claim custom false =
      (w.admitting w.inFlight w.listeners).unstarted job := by
  let v := w.admitting w.inFlight w.listeners
  let made := w.handles.make (v.executorName job)
  let taken := w.tickets.insert made.1
  let tickets := (taken.2.remove taken.1).2
  let book := w.book.attach job.id made.1
  -- the worker that holds for the executor, with what was taken for it already given back
  let held : Worker := { v.hold with config := w.config, handles := made.2, tickets, book }
  have hhold : (w.admitting s listeners).hold = { v.hold with
      config := w.config, inFlight := s, listeners
      handles := w.handles, tickets := w.tickets, book := w.book } :=
    hold_with v w.config s listeners w.handles w.tickets w.book
  have hheld : ({ v with handles := made.2, tickets, book } : Worker).hold = { held with
      inFlight := w.inFlight, listeners := w.listeners } :=
    hold_with v w.config w.inFlight w.listeners made.2 tickets book
  have hstruck : listeners.strike job.lane custom = w.listeners := by
    have h := Listeners.strike_enlist w.listeners job.lane job.listener
    rwa [he] at h
  have hlaunch : (w.admitting s listeners).launch job claim custom false =
      (({ held with inFlight := claim.elim s fun id => (s.release id).2, listeners } :
        Worker).release.unregister job.lane custom).log (.unstarted job.id) := by
    unfold launch
    rw [hhold]
    cases claim <;> rfl
  have hunstarted : v.unstarted job =
      ({ held with inFlight := w.inFlight, listeners := w.listeners } : Worker).release.log
        (.unstarted job.id) := by
    rw [← hheld]
    rfl
  rw [hlaunch, hunstarted, release_claimFor hc, release_with, release_with, unregister_eq, hstruck]

theorem dispatch_spec (w : Worker) (job : Job) (view : View) :
    Dispatched w job view (w.dispatch job view) := by
  unfold dispatch
  split
  · exact .closed .interrupted (by decide) (by simp_all [isOpen])
  split
  · exact .closed .disconnected (by decide) (by cases hl : w.linked <;> simp_all [isOpen])
  split
  · exact .closed .canceled (by decide) (by simp_all [isOpen])
  have ho : w.isOpen view = true := by simp_all [isOpen]
  rcases hw : w.listeners.enlist job.lane job.listener with ⟨custom, listeners⟩
  have hreg := registerCustom_eq w job
  rw [hw] at hreg
  rw [hreg]
  dsimp only
  split
  · rename_i p hc
    exact .refused p listeners custom ho hc hw
  · rename_i s hc
    have hback := Listeners.strike_enlist w.listeners job.lane job.listener
    rw [hw] at hback
    have hsame : ({ w with listeners }.drop job .duplicate).unregister job.lane custom =
        w.drop job .duplicate := by
      rw [unregister_eq]
      exact congrArg (fun l => { w.drop job .duplicate with listeners := l }) hback
    rw [hsame]
    exact .duplicate s ho hc
  · rename_i claim s hc
    split
    · rename_i hl
      change Dispatched w job view ((w.admitting s listeners).launch job claim custom view.spawns)
      cases hs : view.spawns with
      | true => exact .detached claim s listeners custom ho hc hl hw hs
      | false =>
        rw [launch_unstarted hc hw]
        exact .unstarted claim s ho hc hl hs
    · rename_i hl
      exact .inline claim s listeners custom ho hc hl hw

theorem launch_spec (w : Worker) (job : Job) (claim : Option MessageId)
    (custom : Option ListenerName) :
    ∃ handles tickets book ticket handle, w.launch job claim custom true =
      { w.hold with handles, tickets, book }.begin job (.detached ticket handle) claim custom .ready :=
  ⟨_, _, _, _, _, rfl⟩

theorem hold_frame (w : Worker) : w.hold.stats = w.stats ∧ w.hold.listeners = w.listeners := by
  unfold hold notify post
  split
  · split <;> exact ⟨rfl, rfl⟩
  · exact ⟨rfl, rfl⟩

theorem launch_stats (w : Worker) (job : Job) (claim : Option MessageId)
    (custom : Option ListenerName) : (w.launch job claim custom true).stats = w.stats := by
  obtain ⟨_, _, _, _, _, hl⟩ := launch_spec w job claim custom
  rw [hl]
  exact (hold_frame w).1

theorem release_frame (w : Worker) :
    w.release.stats = w.stats ∧ w.release.listeners = w.listeners := by
  unfold release notify post
  dsimp only
  split
  · exact ⟨rfl, rfl⟩
  split
  · split <;> exact ⟨rfl, rfl⟩
  · exact ⟨rfl, rfl⟩

theorem unstarted_stats (w : Worker) (job : Job) : (w.unstarted job).stats = w.stats :=
  (release_frame _).1.trans (hold_frame _).1

theorem unstarted_listeners (w : Worker) (job : Job) :
    (w.unstarted job).listeners = w.listeners :=
  (release_frame _).2.trans (hold_frame _).2

/-! ## The end of a run -/

/-- The ids in flight without the one that the run owns. -/
def givenBack (w : Worker) (r : Run) : InFlight :=
  r.claim.elim w.inFlight fun id => (w.inFlight.release id).2

/-- Whatever a run held is free again but for the listener. -/
def freed (w : Worker) (r : Run) : Worker :=
  match r.kind with
  | .detached ticket _ =>
    { w with inFlight := w.givenBack r, tickets := (w.tickets.remove ticket).2 }.release
  | _ => { w with inFlight := w.givenBack r }

theorem exit_eq (w : Worker) (r : Run) :
    w.exit r = { w.freed r with
      listeners := (w.freed r).listeners.strike r.job.lane r.custom
      runs := (w.freed r).runs.filter (·.id != r.id) }.log (.ended r.id) := by
  have he : w.exit r = { (w.freed r).unregister r.job.lane r.custom with
      runs := ((w.freed r).unregister r.job.lane r.custom).runs.filter (·.id != r.id) }.log
        (.ended r.id) := by
    obtain ⟨id, job, kind, claim, custom, phase⟩ := r
    cases claim <;> cases kind <;> rfl
  rw [he, unregister_eq]

theorem exit_spec (w : Worker) (r : Run) :
    ∃ listeners, w.exit r = { w.freed r with
      listeners, runs := (w.freed r).runs.filter (·.id != r.id) }.log (.ended r.id) :=
  ⟨_, exit_eq w r⟩

/-! ## Runs -/

/-- A failure of the run is passed over in silence. -/
def hushes (w : Worker) (r : Run) (f : Failure) : Bool :=
  w.runCanceled r || w.interrupted || f.isInterrupted

/-- What a run can do next, but for its last two steps: the notice that it announces to its
audience, what it notes, and its next phase. -/
inductive Stride (w : Worker) (r : Run) : Reply → Option Notice → List Event → Phase → Prop
  | cancel (hp : r.phase = .ready) (hc : w.runCanceled r = true) :
      Stride w r .none none [] (.failing .interrupted)
  | start (hp : r.phase = .ready) (hc : w.runCanceled r = false) :
      Stride w r .none (some .starting) [] (.starting (w.audience r))
  | tellStart {l : ListenerName} {ls : List ListenerName} (hp : r.phase = .starting (l :: ls)) :
      Stride w r .none none [.told r.id l .starting] (.starting ls)
  | execute (hp : r.phase = .starting []) : Stride w r .none none [] (.working r.job.plan)
  | report {p : Progress} {rest : Plan} (hp : r.phase = .working (.report p rest)) :
      Stride w r .none (some (.progress p)) [.reported r.id p]
        (.reporting p (w.audience r) rest)
  | tellProgress {p : Progress} {l : ListenerName} {ls : List ListenerName} {plan : Plan}
      (hp : r.phase = .reporting p (l :: ls) plan) :
      Stride w r .none none [.told r.id l (.progress p)] (.reporting p ls plan)
  | resume {p : Progress} {plan : Plan} (hp : r.phase = .reporting p [] plan) :
      Stride w r .none none [] (.working plan)
  | poll {rest : Bool → Plan} (hp : r.phase = .working (.poll rest)) :
      Stride w r .none none [] (.working (rest (w.jobCanceled r)))
  | send {request : Request} {rest : Outcome → Plan}
      (hp : r.phase = .working (.send request rest)) :
      Stride w r .none none [.sent r.id request] (.sending rest)
  | answer {rest : Outcome → Plan} (o : Outcome) (hp : r.phase = .sending rest) :
      Stride w r (.outcome o) none [] (.working (rest o))
  | finish {tx : TransactionId} (hp : r.phase = .working (.finish (.ok tx))) :
      Stride w r .none (some (.done tx)) [.returned r.id (.ok tx), .finished r.id r.job.id]
        (.completing tx (w.audience r))
  | giveUp {f : Failure} (hp : r.phase = .working (.finish (.error f))) :
      Stride w r .none none [.returned r.id (.error f)] (.failing f)
  | tellDone {tx : TransactionId} {l : ListenerName} {ls : List ListenerName}
      (hp : r.phase = .completing tx (l :: ls)) :
      Stride w r .none none [.told r.id l (.done tx)] (.completing tx ls)
  | succeed {tx : TransactionId} (hp : r.phase = .completing tx []) :
      Stride w r .none none [.succeeded r.id] .exiting
  | abandon {f : Failure} (hp : r.phase = .failing f) (hh : w.hushes r f = true) :
      Stride w r .none none [.abandoned r.id f] .exiting
  | blame {f : Failure} (hp : r.phase = .failing f) (hh : w.hushes r f = false) :
      Stride w r .none (some (.error f)) [.failed r.id f] (.blaming f (w.audience r) false)
  | tellError {f : Failure} {l : ListenerName} {ls : List ListenerName} {vote : Bool}
      (hp : r.phase = .blaming f (l :: ls) vote) :
      Stride w r .none none [.told r.id l (.error f)] (.voting l f ls vote)
  | vote (v : Bool) {l : ListenerName} {f : Failure} {ls : List ListenerName} {vote : Bool}
      (hp : r.phase = .voting l f ls vote) :
      Stride w r (.vote v) none [.voted r.id l v] (.blaming f ls (v || vote))
  | count {f : Failure} {vote : Bool} (hp : r.phase = .blaming f [] vote) :
      Stride w r .none none [] (if vote then .requeueing else .exiting)

/-- A run counts its success and its failure when it notes them, and a retry when it turns to ask
for it. -/
def tallied (s : Stats) (events : List Event) (p : Phase) : Stats :=
  { s with
    succeeded := s.succeeded + events.countP Event.isSuccess
    failed := s.failed + events.countP Event.isFailure
    requeued := s.requeued + p.isRequest.toNat }

inductive Strode (w : Worker) (r : Run) : Reply → Worker → Prop
  | stride {reply : Reply} {n : Option Notice} {events : List Event} {p : Phase} (book : JobBook)
      (hs : Stride w r reply n events p) :
      Strode w r reply
        ((events.foldl log { w with book, stats := tallied w.stats events p }).setPhase r.id p)
  | requeued (hp : r.phase = .requeueing) (hg : w.gateOpen = true) :
      Strode w r .none (w.requeue r)
  | ended (hp : r.phase = .exiting) : Strode w r .none (w.exit r)

theorem followPlan_strode {r : Run} {plan : Plan} (hp : r.phase = .working plan) :
    Strode w r .none (w.followPlan r plan) := by
  cases plan with
  | finish outcome =>
    cases outcome with
    | ok tx => exact .stride (w.book.finish r.job.id) (.finish hp)
    | error f => exact .stride w.book (.giveUp hp)
  | report p rest => exact .stride w.book (.report hp)
  | poll rest => exact .stride w.book (.poll hp)
  | send request rest => exact .stride w.book (.send hp)

theorem fail_strode {r : Run} {f : Failure} (hp : r.phase = .failing f) :
    Strode w r .none (w.fail r f) := by
  unfold fail
  split
  · rename_i hh
    exact .stride w.book (.abandon hp hh)
  · rename_i hh
    exact .stride w.book (.blame hp (Bool.eq_false_iff.mpr hh))

theorem count_strode {r : Run} {f : Failure} {vote : Bool} (hp : r.phase = .blaming f [] vote) :
    Strode w r .none (w.count r vote) := by
  cases vote <;> exact .stride w.book (.count hp)

theorem advanceRun_strode {r : Run} {reply : Reply} (h : w.advanceRun? r reply = some w') :
    Strode w r reply w' := by
  unfold advanceRun? at h
  cases hp : r.phase with
  | ready =>
    cases reply <;> simp only [hp] at h <;> cases h
    unfold beginRun
    split
    · rename_i hc
      exact .stride w.book (.cancel hp hc)
    · rename_i hc
      exact .stride w.book (.start hp (Bool.eq_false_iff.mpr hc))
  | starting rest =>
    cases rest <;> cases reply <;> simp only [hp] at h <;> cases h
    · exact .stride w.book (.execute hp)
    · exact .stride w.book (.tellStart hp)
  | working plan =>
    cases reply <;> simp only [hp] at h <;> cases h
    exact followPlan_strode hp
  | reporting p rest plan =>
    cases rest <;> cases reply <;> simp only [hp] at h <;> cases h
    · exact .stride w.book (.resume hp)
    · exact .stride w.book (.tellProgress hp)
  | sending rest =>
    cases reply <;> simp only [hp] at h <;> cases h
    exact .stride w.book (.answer _ hp)
  | completing tx rest =>
    cases rest <;> cases reply <;> simp only [hp] at h <;> cases h
    · exact .stride w.book (.succeed hp)
    · exact .stride w.book (.tellDone hp)
  | failing f =>
    cases reply <;> simp only [hp] at h <;> cases h
    exact fail_strode hp
  | blaming f rest vote =>
    cases rest <;> cases reply <;> simp only [hp] at h <;> cases h
    · exact count_strode hp
    · exact .stride w.book (.tellError hp)
  | voting l f rest vote =>
    cases reply <;> simp only [hp] at h <;> cases h
    exact .stride w.book (.vote _ hp)
  | requeueing =>
    cases reply <;> simp only [hp] at h
    · split at h
      · rename_i hg
        cases h
        exact .requeued hp hg
      · cases h
    all_goals cases h
  | exiting =>
    cases reply <;> simp only [hp] at h <;> cases h
    exact .ended hp

theorem Stride.early {r : Run} {reply : Reply} {n : Option Notice} {events : List Event} {p : Phase}
    (h : Stride w r reply n events p) : r.phase.isLate = false := by
  cases h <;> simp only [*, Phase.isLate]

theorem Stride.byRun {r : Run} {reply : Reply} {n : Option Notice} {events : List Event} {p : Phase}
    (h : Stride w r reply n events p) : ∀ e ∈ events, e.byRun = true := by
  cases h <;> simp [Event.byRun]

theorem Stride.run {r : Run} {reply : Reply} {n : Option Notice} {events : List Event} {p : Phase}
    (h : Stride w r reply n events p) : ∀ e ∈ events, e.run? = some r.id := by
  cases h <;> simp [Event.run?]

/-- Until its last two steps a run counts, notes what it does and goes on to another phase. -/
inductive Advanced (w : Worker) (r : Run) : Reply → Worker → Prop
  | going (reply : Reply) (succeeded failed requeued : Nat) (book : JobBook) (events : List Event)
      (p : Phase) (hp : r.phase.isLate = false) (he : ∀ e ∈ events, e.byRun = true) :
      Advanced w r reply ((events.foldl log { w with
        book, stats := { w.stats with succeeded, failed, requeued } }).setPhase r.id p)
  | requeued (hp : r.phase = .requeueing) (hg : w.gateOpen = true) :
      Advanced w r .none (w.requeue r)
  | ended (hp : r.phase = .exiting) : Advanced w r .none (w.exit r)

theorem advanceRun_spec {r : Run} {reply : Reply} (h : w.advanceRun? r reply = some w') :
    Advanced w r reply w' := by
  cases advanceRun_strode h with
  | stride book hs => exact .going reply _ _ _ book _ _ hs.early hs.byRun
  | requeued hp hg => exact .requeued hp hg
  | ended hp => exact .ended hp

end Worker

end Outbox
