import Mathlib.Data.List.Dedup
import Outbox.Proofs.Runs.Broadcast

/-! # What the statistics count

Every job that the loop hands to dispatch is dropped, dispatched or cannot be identified, and every
dispatched one succeeds, fails before its listeners or in silence, is still under way, or never got
an executor to run on. Counted along a run, the steps that do these things are what the statistics
say. `Reckoned` tells what a
step does to the counters, the runs and the votes. Main statement:
`statistics_account_for_every_job`. -/
namespace Outbox
set_option autoImplicit false

/-- The job is the sending of a message whose uri names no message. -/
def Job.isUnidentified (j : Job) : Bool :=
  j.message.any fun m =>
    match m.uri.messageId with
    | .error _ => true
    | .ok _ => false

def Label.isDispatch : Label → Bool
  | .dispatch _ => true
  | _ => false

def Phase.hasFailed : Phase → Bool
  | .failing _ | .blaming _ _ _ | .voting _ _ _ _ | .requeueing | .exiting => true
  | _ => false

/-- Some listener has voted for a retry, and the votes are still being asked for. -/
def Phase.isUpvoted : Phase → Bool
  | .blaming _ _ vote | .voting _ _ _ vote => vote
  | _ => false

def RunKind.isRefused : RunKind → Bool
  | .refused => true
  | _ => false

/-- A dispatched run that has not yet recorded an outcome. -/
def Run.isUnsettled (r : Run) : Bool := !r.kind.isRefused && !r.phase.isSettled

/-- The run for whose retry somebody votes. -/
def Event.upvote? : Event → Option Nat
  | .voted run _ true => some run
  | _ => none

namespace Worker

/-- A message that the job sends, if any, has an id and may be sent now. -/
def admits (s : InFlight) (job : Job) : Bool :=
  match claimFor s job with
  | .ok (.proceed _, _) => true
  | _ => false

/-- The job is to run, and there is no thread for its executor. -/
def isStranded (w : Worker) (view : View) (job : Job) : Bool :=
  w.isOpen view && admits w.inFlight job && !view.houses job

namespace Moment

/-- A job passes the checks that come first, and its message cannot be identified. -/
def isUnidentified (m : Moment) : Bool :=
  match m.label with
  | .dispatch view => m.source.isOpen view && m.source.loop.picked.any Job.isUnidentified
  | _ => false

/-- A job is dispatched, and its executor cannot be started. -/
def isUnstarted (m : Moment) : Bool :=
  match m.label with
  | .dispatch view => m.source.loop.picked.any (m.source.isStranded view)
  | _ => false

/-- The run whose failure is dealt with, and whether it is passed over in silence. -/
def verdict? (m : Moment) : Option (Run × Bool) :=
  match m.label with
  | .advance id _ => (m.source.findRun? id).bind fun r =>
    match r.phase with
    | .failing f => some (r, m.source.hushes r f)
    | _ => none
  | _ => none

/-- A dispatched run reports its failure to the listeners. -/
def isReport (m : Moment) : Bool :=
  m.verdict?.any fun (r, hushed) => !r.kind.isRefused && !hushed

/-- A dispatched run ends with an error in silence. -/
def isAbandonment (m : Moment) : Bool :=
  m.verdict?.any fun (r, hushed) => !r.kind.isRefused && hushed

/-- That a job could not be identified is reported to the listeners. -/
def isRefusal (m : Moment) : Bool :=
  m.verdict?.any fun (r, hushed) => r.kind.isRefused && !hushed

end Moment

/-- The runs for whose retry somebody voted, once for every vote. -/
def upvoted (w : Worker) : List Nat := w.journal.filterMap (·.event.upvote?)

/-- What a step does to the counters, the runs and the votes. -/
inductive Reckoned (w v : Worker) : Label → Prop
  | apart {l : Label} (hl : l.sparesRuns = true)
      (ht : ∃ startedAt, v.stats = { w.stats with startedAt }) (hr : v.runs = w.runs)
      (hu : v.upvoted = w.upvoted) : Reckoned w v l
  | dropped (view : View) (job : Job) (reason : DropReason) (hp : w.loop.picked = some job)
      (hd : (w.isOpen view && job.isUnidentified) = false) (hn : w.isStranded view job = false)
      (ht : v.stats = w.stats.recordDrop reason) (hr : v.runs = w.runs)
      (hu : v.upvoted = w.upvoted) : Reckoned w v (.dispatch view)
  | refused (view : View) (job : Job) (r : Run) (hp : w.loop.picked = some job)
      (hd : (w.isOpen view && job.isUnidentified) = true) (hn : w.isStranded view job = false)
      (hk : r.kind.isRefused = true) (hphase : r.phase.isSettled = false) (ht : v.stats = w.stats) (hr : v.runs = w.runs ++ [r])
      (hu : v.upvoted = w.upvoted) : Reckoned w v (.dispatch view)
  | admitted (view : View) (job : Job) (r : Run) (hp : w.loop.picked = some job)
      (hd : (w.isOpen view && job.isUnidentified) = false) (hn : w.isStranded view job = false)
      (hk : r.kind.isRefused = false) (hphase : r.phase.isSettled = false)
      (ht : v.stats = { w.stats with dispatched := w.stats.dispatched + 1 })
      (hr : v.runs = w.runs ++ [r]) (hu : v.upvoted = w.upvoted) : Reckoned w v (.dispatch view)
  | unstarted (view : View) (job : Job) (hp : w.loop.picked = some job)
      (hd : (w.isOpen view && job.isUnidentified) = false) (hn : w.isStranded view job = true)
      (ht : v.stats = { w.stats with dispatched := w.stats.dispatched + 1 })
      (hr : v.runs = w.runs) (hu : v.upvoted = w.upvoted) : Reckoned w v (.dispatch view)
  | stride (r : Run) (reply : Reply) (notice : Option Notice) (events : List Event) (p : Phase)
      (hr : r ∈ w.runs) (hs : Stride w r reply notice events p)
      (ht : v.stats = tallied w.stats events p) (hv : v.runs = (w.setPhase r.id p).runs)
      (hu : v.upvoted = events.reverse.filterMap Event.upvote? ++ w.upvoted) :
      Reckoned w v (.advance r.id reply)
  | requeued (r : Run) (hr : r ∈ w.runs) (hp : r.phase = .requeueing) (ht : v.stats = w.stats)
      (hv : v.runs = (w.setPhase r.id .exiting).runs) (hu : v.upvoted = w.upvoted) :
      Reckoned w v (.advance r.id .none)
  | ended (r : Run) (hr : r ∈ w.runs) (hp : r.phase = .exiting) (ht : v.stats = w.stats)
      (hv : v.runs = w.runs.filter (·.id != r.id)) (hu : v.upvoted = w.upvoted) :
      Reckoned w v (.advance r.id .none)

variable {config : Config} {w v u : Worker} {l : Label} {r : Run}

theorem Aside.upvoted {news : List JournalEntry} (h : Aside news)
    (hj : v.journal = news ++ w.journal) : v.upvoted = w.upvoted := by
  have hnone : news.filterMap (·.event.upvote?) = [] := by
    refine List.filterMap_eq_nil_iff.mpr fun e he => ?_
    have hrun := h e he
    cases hevent : e.event with
    | voted =>
      rw [hevent] at hrun
      cases hrun
    | _ => rfl
  rw [Worker.upvoted, hj, List.filterMap_append, hnone, List.nil_append, Worker.upvoted]

theorem Quiet.upvoted (h : Quiet u v) : v.upvoted = u.upvoted := by
  obtain ⟨_, _, _, _, _, _, _, news, _, _, hnews⟩ := h
  exact hnews.aside.upvoted rfl

theorem isUnidentified_of_claimFor_error {s : InFlight} {job : Job} {p : MessageUri.Problem}
    (h : claimFor s job = .error p) : job.isUnidentified = true := by
  obtain ⟨m, hm, hp⟩ := uri_of_claimFor_error h
  simp [Job.isUnidentified, hm, hp]

theorem not_isUnidentified_of_claimFor_ok {s : InFlight} {job : Job} {a : Admission × InFlight}
    (h : claimFor s job = .ok a) : job.isUnidentified = false := by
  rcases message_cases job with hm | ⟨id, m, hm, hid⟩ | ⟨m, p, hm, hp⟩
  · simp [Job.isUnidentified, hm]
  · simp [Job.isUnidentified, hm, hid]
  · rw [claimFor_bad_uri hm hp] at h
    cases h

theorem not_isStranded_of_houses {view : View} {job : Job} (h : view.houses job = true) :
    w.isStranded view job = false := by
  rw [isStranded, h, Bool.not_true, Bool.and_false]

theorem not_isStranded_of_not_admits {view : View} {job : Job}
    (h : admits w.inFlight job = false) : w.isStranded view job = false := by
  rw [isStranded, h, Bool.and_false, Bool.false_and]

theorem sparesRuns_of {l : Label} (hl : l.mayRest = true ∨ l.isLook = true) :
    l.sparesRuns = true := by
  cases l with
  | dispatch | advance => rcases hl with hl | hl <;> cases hl
  | _ => rfl

theorem Quiet.stats (h : Quiet u v) : v.stats = u.stats := by
  cases h
  rfl

theorem Looked.stats {s : Submission} (h : Looked w s v) : v.stats = w.stats := by
  cases h with
  | quiet hv => exact hv.stats
  | accepted => rfl

namespace Reckoned

/-- What comes before may change anything but the statistics, the runs and the journal. -/
theorem of_quiet (h : Quiet u v) (hl : l.sparesRuns = true) (ht : u.stats = w.stats)
    (hr : u.runs = w.runs) (hj : u.journal = w.journal) : Reckoned w v l := by
  have hu : u.upvoted = w.upvoted := by rw [upvoted, hj, upvoted]
  have hv := h.upvoted.trans hu
  cases h
  exact .apart hl ⟨_, ht⟩ hr hv

theorem of_dispatched {job : Job} {view : View} (hp : w.loop.picked = some job)
    (h : Dispatched (w.withLoop { w.loop with picked := none }) job view v) :
    Reckoned w v (.dispatch view) := by
  cases h with
  | closed reason _ ho =>
    change w.isOpen view = false at ho
    refine .dropped view job reason hp (Bool.and_eq_false_iff.mpr (.inl ho)) ?_ rfl rfl rfl
    rw [isStranded, ho, Bool.false_and, Bool.false_and]
  | duplicate s ho hc =>
    change claimFor w.inFlight job = _ at hc
    refine .dropped view job .duplicate hp ?_ (not_isStranded_of_not_admits ?_) rfl rfl rfl
    · rw [not_isUnidentified_of_claimFor_ok hc, Bool.and_false]
    · unfold admits
      rw [hc]
  | refused p listeners custom ho hc =>
    change claimFor w.inFlight job = _ at hc
    refine .refused view job _ hp ?_ (not_isStranded_of_not_admits ?_) rfl rfl rfl rfl rfl
    · rw [isUnidentified_of_claimFor_error hc, Bool.and_true]
      exact ho
    · unfold admits
      rw [hc]
  | inline claim s listeners custom ho hc hl =>
    have hn := not_isUnidentified_of_claimFor_ok hc
    have hhoused : view.houses job = true := View.houses_of_inline hl
    refine .admitted view job _ hp ?_ (not_isStranded_of_houses hhoused) ?_ ?_ rfl rfl rfl
    · rw [hn, Bool.and_false]
    · rfl
    · rfl
  | unstarted claim s ho hc hl hs =>
    change w.isOpen view = true at ho
    change claimFor w.inFlight job = _ at hc
    let admitted := (w.withLoop { w.loop with picked := none }).admitting w.inFlight w.listeners
    change Reckoned w (admitted.unstarted job) _
    obtain ⟨u, hquiet, he⟩ := unstarted_spec admitted job
    have hupvoted := hquiet.upvoted
    have hledger := ledger_unstarted admitted job
    have hn := not_isUnidentified_of_claimFor_ok hc
    refine .unstarted view job hp ?_ ?_ (unstarted_stats admitted job)
      (congrArg Ledger.runs hledger) ?_
    · rw [hn, Bool.and_false]
    · have hadmits : admits w.inFlight job = true := by
        unfold admits
        rw [hc]
      rw [isStranded, ho, hadmits, View.houses_of_detached hl, hs]
      rfl
    · rw [he]
      exact hupvoted
  | detached claim s listeners custom ho hc hl _ hs =>
    let admitted := (w.withLoop { w.loop with picked := none }).admitting s listeners
    obtain ⟨handles, tickets, book, ticket, handle, hlaunch⟩ :=
      launch_spec admitted job claim custom
    have hledger := ledger_hold admitted
    have hquiet := quiet_hold admitted
    have hn := not_isUnidentified_of_claimFor_ok hc
    have hhoused : view.houses job = true := (View.houses_of_detached hl).trans hs
    change Reckoned w (admitted.launch job claim custom true) _
    rw [hlaunch]
    refine .admitted view job _ hp ?_ (not_isStranded_of_houses hhoused) ?_ ?_
      (hold_frame admitted).1
      (congrArg (· ++ [_]) (congrArg Ledger.runs hledger)) hquiet.upvoted
    · rw [hn, Bool.and_false]
    · rfl
    · rfl

end Reckoned

theorem reckoned_advance (hr : r ∈ w.runs) {reply : Reply} (h : w.advanceRun? r reply = some v) :
    Reckoned w v (.advance r.id reply) := by
  cases advanceRun_strode h with
  | @stride _ notice events p book hs =>
    rw [noted_eq]
    refine .stride r reply notice events p hr hs rfl rfl ?_
    change (List.filterMap _ (_ ++ w.journal)) = _
    rw [List.filterMap_append, ← List.map_reverse, List.filterMap_map]
    rfl
  | requeued hp hg =>
    have hlooked := look_spec w
      { job := r.job, delay := w.config.retryDelay, attempts := w.config.submitAttempts }
    obtain ⟨hruns, news, hj, hnews⟩ := hlooked.aside
    exact .requeued r hr hp hlooked.stats (congrArg (List.map _) hruns) (hnews.upvoted hj)
  | ended hp =>
    have hledger := ledger_freed w r
    obtain ⟨tickets, keepAlive, hquiet⟩ := freed_spec w r
    have hu := hquiet.upvoted
    have ht := hquiet.stats
    rw [exit_eq]
    exact .ended r hr hp ht (congrArg (List.filter _) (congrArg Ledger.runs hledger)) hu

theorem step_reckoned (h : w.step l = some v) : Reckoned w v l := by
  cases step_footprint h with
  | quiet hl hv => exact .of_quiet hv (sparesRuns_of (.inl hl)) rfl rfl rfl
  | look s hl hv =>
    obtain ⟨hr, news, hj, hnews⟩ := hv.aside
    exact .apart (sparesRuns_of (.inr hl)) ⟨_, hv.stats⟩ hr (hnews.upvoted hj)
  | hold hv | release hv => exact .of_quiet hv rfl rfl rfl rfl
  | shutdown => exact .apart rfl ⟨_, rfl⟩ rfl ((aside_farewell w).upvoted rfl)
  | cancel | start | join | enter | close => exact .apart rfl ⟨_, rfl⟩ rfl rfl
  | climb s rotation news hl _ _ hnews =>
    exact .apart (sparesRuns_of (.inl hl)) ⟨_, rfl⟩ rfl (hnews.aside.upvoted rfl)
  | prepare pending mailbox => exact .apart rfl ⟨_, rfl⟩ rfl ((aside_replay w pending).upvoted rfl)
  | dispatch view job hp hd => exact .of_dispatched hp hd
  | advance r reply hr ha => exact reckoned_advance hr ha

/-! ## Runs that were refused -/

/-- A run that is refused does not get to work. -/
theorem Walk.hasFailed {h : List Moment} {first : Run} {es : List Event}
    (hw : Walk h first r es) (hf : first.Fresh) (hk : r.kind.isRefused = true) :
    r.phase.hasFailed = true := by
  induction hw with
  | begin =>
    cases hf with
    | refused _ _ _ hp => rw [hp]; rfl
    | ready hne =>
      cases hkind : first.kind with
      | refused => exact absurd hkind hne
      | inline | detached =>
        rw [hkind] at hk
        cases hk
  | @pace m r reply before events p hw _ _ _ hs ih =>
    have hp := ih hk
    cases hs with
    | requeue => rfl
    | stride hs =>
      cases hs with
      | abandon | blame | tellError | vote | succeed => rfl
      | @count f vote => cases vote <;> rfl
      | @answer rest o hp' =>
        rw [hp'] at hp
        cases hp
      | _ hp' =>
        rw [hp'] at hp
        cases hp

/-! ## Votes -/

theorem not_upvoted_of_unsettled {p : Phase} (h : p.isSettled = false) : p.isUpvoted = false := by
  cases p with
  | blaming | voting => cases h
  | _ => rfl

theorem mem_upvoted {n : Nat} : n ∈ w.upvoted ↔ ∃ l, .voted n l true ∈ w.chronicle n := by
  rw [upvoted, List.mem_filterMap]
  constructor
  · rintro ⟨entry, hentry, hu⟩
    cases he : entry.event with
    | voted run l v =>
      rw [he] at hu
      cases v with
      | false => cases hu
      | true =>
        cases hu
        exact ⟨l, (mem_chronicle rfl).mpr ⟨entry, hentry, he⟩⟩
    | _ =>
      rw [he] at hu
      cases hu
  · rintro ⟨l, hl⟩
    obtain ⟨entry, hentry, he⟩ := (mem_chronicle rfl).mp hl
    exact ⟨entry, hentry, by rw [he]; rfl⟩

theorem any_ballots {n : Nat} :
    (ballots (w.chronicle n)).any Prod.snd = true ↔ ∃ l, .voted n l true ∈ w.chronicle n := by
  rw [List.any_eq_true]
  constructor
  · rintro ⟨⟨l, v⟩, hmem, rfl⟩
    obtain ⟨e, he, hb⟩ := List.mem_filterMap.mp hmem
    cases e with
    | voted run l' v =>
      cases hb
      have hrun : some run = some n := of_decide_eq_true (List.mem_filter.mp he).2
      cases hrun
      exact ⟨l, he⟩
    | _ => cases hb
  · rintro ⟨l, hl⟩
    exact ⟨(l, true), List.mem_filterMap.mpr ⟨_, hl, rfl⟩, rfl⟩

/-- The flag of a run whose votes are being asked for says whether one was for a retry. -/
theorem upvoted_of_live (h : Reachable config w) (hr : r ∈ w.runs) {l : ListenerName} {f : Failure}
    {rest : List ListenerName} {vote : Bool} (hp : r.phase = .voting l f rest vote) :
    vote = true ↔ r.id ∈ w.upvoted := by
  obtain ⟨ls, hs⟩ := h
  obtain ⟨first, hf, hw⟩ := walk_of_live hs hr
  obtain ⟨_, hv⟩ := (hw.poll hf).of_voting hp
  rw [hv, any_ballots, mem_upvoted]

/-- A vote for a retry counts once for every run. -/
theorem Stride.votes {reply : Reply} {notice : Option Notice} {events : List Event} {p : Phase}
    (hs : Stride w r reply notice events p) {us : List Nat}
    (hu : ∀ l f rest vote, r.phase = .voting l f rest vote → (vote = true ↔ r.id ∈ us)) :
    p.isRequest.toNat + p.isUpvoted.toNat + us.dedup.length =
      r.phase.isUpvoted.toNat + (events.reverse.filterMap Event.upvote? ++ us).dedup.length := by
  cases hs with
  | @vote v l f rest vote hp =>
    have hvote := hu l f rest vote hp
    cases v with
    | false => simp [hp, Phase.isRequest, Phase.isUpvoted, List.filterMap_cons, Event.upvote?]
    | true =>
      have hnew : [Event.voted r.id l true].reverse.filterMap Event.upvote? ++ us = r.id :: us :=
        rfl
      rw [hnew]
      by_cases hmem : r.id ∈ us
      · rw [hvote.mpr hmem] at hp
        simp [hp, Phase.isRequest, Phase.isUpvoted, List.dedup_cons_of_mem hmem]
      · rw [Bool.eq_false_iff.mpr (hmem ∘ hvote.mp)] at hp
        simp [hp, Phase.isRequest, Phase.isUpvoted, List.dedup_cons_of_notMem hmem, Nat.add_comm]
  | @count f vote hp => cases vote <;> simp [hp, Phase.isRequest, Phase.isUpvoted]
  | @answer rest o hp => simp [hp, Phase.isRequest, Phase.isUpvoted]
  | _ hp => simp [hp, Phase.isRequest, Phase.isUpvoted, List.filterMap_cons, Event.upvote?]

/-! ## Outcomes -/

theorem verdict?_advance (ho : w.ledger.Owned) (hr : r ∈ w.runs) (reply : Reply) :
    Moment.verdict? ⟨w, .advance r.id reply, v⟩ =
      match r.phase with
      | .failing f => some (r, w.hushes r f)
      | _ => none := by
  change (w.findRun? r.id).bind _ = _
  rw [findRun?_eq ho hr]
  rfl

theorem of_no_verdict {m : Moment} (hv : m.verdict? = none) :
    m.isReport = false ∧ m.isAbandonment = false ∧ m.isRefusal = false := by
  simp [Moment.isReport, Moment.isAbandonment, Moment.isRefusal, hv]

/-- What a stride records of the outcome of a run. -/
theorem Stride.outcome (ho : w.ledger.Owned) (hr : r ∈ w.runs)
    (hk : r.kind.isRefused = true → r.phase.hasFailed = true) {reply : Reply}
    {notice : Option Notice} {events : List Event} {p : Phase} (hs : Stride w r reply notice events p) {m : Moment}
    (hm : m = ⟨w, .advance r.id reply, v⟩) :
    events.countP Event.isSuccess + m.isReport.toNat + m.isAbandonment.toNat +
        ({ r with phase := p } : Run).isUnsettled.toNat = r.isUnsettled.toNat ∧
      events.countP Event.isFailure = m.isReport.toNat + m.isRefusal.toNat := by
  have hv := verdict?_advance (v := v) ho hr reply
  rw [← hm] at hv
  cases hs with
  | @abandon f hp hh =>
    rw [hp] at hv
    simp [Moment.isReport, Moment.isAbandonment, Moment.isRefusal, hv, hh, hp, Run.isUnsettled,
      Phase.isSettled, Event.isSuccess, Event.isFailure]
  | @blame f hp hh =>
    rw [hp] at hv
    cases hkind : r.kind.isRefused <;>
      simp [Moment.isReport, Moment.isAbandonment, Moment.isRefusal, hv, hh, hp, hkind,
        Run.isUnsettled, Phase.isSettled, Event.isSuccess, Event.isFailure]
  | succeed hp =>
    rw [hp] at hv hk
    obtain ⟨h₁, h₂, h₃⟩ := of_no_verdict hv
    have hne : r.kind.isRefused = false := Bool.eq_false_iff.mpr fun he => by cases hk he
    simp [h₁, h₂, h₃, hp, hne, Run.isUnsettled, Phase.isSettled, Event.isSuccess, Event.isFailure]
  | @count f vote hp =>
    rw [hp] at hv
    obtain ⟨h₁, h₂, h₃⟩ := of_no_verdict hv
    cases vote <;> simp [h₁, h₂, h₃, hp, Run.isUnsettled, Phase.isSettled]
  | @answer rest o hp =>
    rw [hp] at hv
    obtain ⟨h₁, h₂, h₃⟩ := of_no_verdict hv
    simp [h₁, h₂, h₃, hp, Run.isUnsettled, Phase.isSettled]
  | @vote v l f rest vote hp =>
    rw [hp] at hv
    obtain ⟨h₁, h₂, h₃⟩ := of_no_verdict hv
    simp [h₁, h₂, h₃, hp, Run.isUnsettled, Phase.isSettled, Event.isSuccess, Event.isFailure]
  | _ hp =>
    rw [hp] at hv
    obtain ⟨h₁, h₂, h₃⟩ := of_no_verdict hv
    simp [h₁, h₂, h₃, hp, Run.isUnsettled, Phase.isSettled, Event.isSuccess, Event.isFailure]

/-! ## The accounts -/

/-- The counters against the steps that they count. -/
structure Accounted (h : List Moment) (w : Worker) : Prop where
  handed : h.countP (·.label.isDispatch) =
    w.stats.droppedTotal + w.stats.dispatched + h.countP Moment.isUnidentified
  settled : w.stats.dispatched = w.stats.succeeded + h.countP Moment.isReport +
    h.countP Moment.isAbandonment + w.runs.countP Run.isUnsettled + h.countP Moment.isUnstarted
  failed : w.stats.failed = h.countP Moment.isReport + h.countP Moment.isRefusal
  requeued : w.stats.requeued + w.runs.countP (·.phase.isUpvoted) = w.upvoted.dedup.length

theorem countP_snoc (P : Moment → Bool) (h : List Moment) (m : Moment) :
    (h ++ [m]).countP P = h.countP P + (P m).toNat := by
  rw [List.countP_append, List.countP_singleton]
  cases P m <;> rfl

theorem verdict?_of_not_failing (ho : w.ledger.Owned) (hr : r ∈ w.runs) (reply : Reply)
    (hp : ∀ f, r.phase ≠ .failing f) : Moment.verdict? ⟨w, .advance r.id reply, v⟩ = none := by
  rw [verdict?_advance ho hr]
  split
  · rename_i f hf
    exact absurd hf (hp f)
  · rfl

theorem isUnidentified_dispatch {job : Job} (hp : w.loop.picked = some job) (view : View) :
    Moment.isUnidentified ⟨w, .dispatch view, v⟩ = (w.isOpen view && job.isUnidentified) := by
  change (w.isOpen view && w.loop.picked.any Job.isUnidentified) = _
  rw [hp]
  rfl

theorem isUnstarted_dispatch {job : Job} (hp : w.loop.picked = some job) (view : View) :
    Moment.isUnstarted ⟨w, .dispatch view, v⟩ = w.isStranded view job := by
  change w.loop.picked.any (w.isStranded view) = _
  rw [hp]
  rfl

theorem of_not_isDispatch {m : Moment} (hd : m.label.isDispatch = false) :
    m.isUnidentified = false ∧ m.isUnstarted = false := by
  obtain ⟨source, label, target⟩ := m
  cases label with
  | dispatch => cases hd
  | _ => exact ⟨rfl, rfl⟩

namespace Accounted
variable {h : List Moment}

/-- A step that hands nothing to dispatch and records no outcome. -/
theorem carry (ha : Accounted h w) {m : Moment} (hd : m.label.isDispatch = false)
    (hv : m.verdict? = none) (ht : ∃ startedAt, v.stats = { w.stats with startedAt })
    (hunsettled : v.runs.countP Run.isUnsettled = w.runs.countP Run.isUnsettled)
    (hupvoted : v.runs.countP (·.phase.isUpvoted) = w.runs.countP (·.phase.isUpvoted))
    (hu : v.upvoted = w.upvoted) : Accounted (h ++ [m]) v := by
  obtain ⟨hn, hstarted⟩ := of_not_isDispatch hd
  obtain ⟨handed, settled, failed, requeued⟩ := ha
  obtain ⟨startedAt, ht⟩ := ht
  obtain ⟨hreport, habandon, hrefusal⟩ := of_no_verdict hv
  constructor
  · rw [countP_snoc, countP_snoc, hd, hn, ht]
    exact handed
  · rw [countP_snoc, countP_snoc, countP_snoc, hreport, habandon, hstarted, ht, hunsettled]
    exact settled
  · rw [countP_snoc, countP_snoc, hreport, hrefusal, ht]
    exact failed
  · rw [ht, hupvoted, hu]
    exact requeued

/-- A job that is handed out is counted once. -/
theorem dispatch (ha : Accounted h w) {view : View} {job : Job} (hp : w.loop.picked = some job)
    (new : List Run) (hr : v.runs = w.runs ++ new) (hu : v.upvoted = w.upvoted)
    (hup : new.countP (·.phase.isUpvoted) = 0)
    (hcount : v.stats.droppedTotal + v.stats.dispatched +
      (w.isOpen view && job.isUnidentified).toNat = w.stats.droppedTotal + w.stats.dispatched + 1)
    (hnew : v.stats.dispatched =
      w.stats.dispatched + new.countP Run.isUnsettled + (w.isStranded view job).toNat)
    (hsame : v.stats.succeeded = w.stats.succeeded ∧ v.stats.failed = w.stats.failed ∧
      v.stats.requeued = w.stats.requeued) :
    Accounted (h ++ [⟨w, .dispatch view, v⟩]) v := by
  obtain ⟨handed, settled, failed, requeued⟩ := ha
  obtain ⟨hs, hf, hq⟩ := hsame
  obtain ⟨hreport, habandon, hrefusal⟩ := of_no_verdict (m := ⟨w, .dispatch view, v⟩) rfl
  constructor
  · rw [countP_snoc, countP_snoc, isUnidentified_dispatch hp]
    change _ + 1 = _
    omega
  · rw [countP_snoc, countP_snoc, countP_snoc, hreport, habandon, isUnstarted_dispatch hp, hr,
      List.countP_append]
    change v.stats.dispatched = v.stats.succeeded + (_ + 0) + (_ + 0) + _ + _
    omega
  · rw [countP_snoc, countP_snoc, hreport, hrefusal, hf]
    exact failed
  · rw [hr, List.countP_append, hup, hu, hq]
    exact requeued

theorem step (hw : Reachable config w) (ha : Accounted h w) (hl : w.step l = some v) :
    Accounted (h ++ [⟨w, l, v⟩]) v := by
  have ho := owned hw
  cases step_reckoned hl with
  | apart hspares ht hr hu =>
    refine ha.carry ?_ ?_ ht (by rw [hr]) (by rw [hr]) hu
    all_goals
      cases l with
      | dispatch | advance => cases hspares
      | _ => rfl
  | dropped view job reason hp hd hn ht hr hu =>
    refine ha.dispatch hp [] (by rw [hr, List.append_nil]) hu rfl ?_ ?_ ?_
    · rw [hd, ht, Stats.droppedTotal_recordDrop]
      cases reason <;> simp [Stats.recordDrop] <;> omega
    · rw [hn, ht]
      cases reason <;> rfl
    · rw [ht]
      cases reason <;> exact ⟨rfl, rfl, rfl⟩
  | refused view job r hp hd hn hk hphase ht hr hu =>
    refine ha.dispatch hp [r] hr hu ?_ ?_ ?_ ?_
    · simp [not_upvoted_of_unsettled hphase]
    · rw [hd, ht]
      rfl
    · rw [hn, ht]
      simp [Run.isUnsettled, hk]
    · rw [ht]
      exact ⟨rfl, rfl, rfl⟩
  | unstarted view job hp hd hn ht hr hu =>
    refine ha.dispatch hp [] (by rw [hr, List.append_nil]) hu rfl ?_ ?_ ?_
    · rw [hd, ht]
      rfl
    · rw [hn, ht]
      rfl
    · rw [ht]
      exact ⟨rfl, rfl, rfl⟩
  | admitted view job r hp hd hn hk hphase ht hr hu =>
    refine ha.dispatch hp [r] hr hu ?_ ?_ ?_ ?_
    · simp [not_upvoted_of_unsettled hphase]
    · rw [hd, ht]
      rfl
    · rw [hn, ht]
      simp [Run.isUnsettled, hk, hphase]
    · rw [ht]
      exact ⟨rfl, rfl, rfl⟩
  | stride r reply notice events p hr hs ht hv hu =>
    obtain ⟨handed, settled, failed, requeued⟩ := ha
    have hk : r.kind.isRefused = true → r.phase.hasFailed = true := by
      obtain ⟨ls, hls⟩ := hw
      obtain ⟨first, hf, hwalk⟩ := walk_of_live hls hr
      exact hwalk.hasFailed hf
    obtain ⟨houtcome, hfailure⟩ := hs.outcome (v := v) ho hr hk rfl
    -- A second vote for a retry is not counted again, so the flag must know of the first.
    have hvotes := hs.votes fun _ _ _ _ hp => upvoted_of_live hw hr hp
    have hunsettled := countP_setPhase ho hr Run.isUnsettled p
    have hupvoted := countP_setPhase ho hr (·.phase.isUpvoted) p
    dsimp only at hupvoted
    constructor
    · rw [countP_snoc, countP_snoc, ht]
      exact handed
    · rw [countP_snoc, countP_snoc, countP_snoc, ht, hv]
      change w.stats.dispatched = w.stats.succeeded + _ + _ + _ + _ + (_ + 0)
      omega
    · rw [countP_snoc, countP_snoc, ht]
      change w.stats.failed + _ = _
      omega
    · rw [ht, hv, hu]
      change w.stats.requeued + _ + _ = _
      omega
  | requeued r hr hp ht hv hu =>
    have hunsettled := countP_setPhase ho hr Run.isUnsettled .exiting
    have hupvoted := countP_setPhase ho hr (·.phase.isUpvoted) .exiting
    have hnone := verdict?_of_not_failing (v := v) ho hr .none fun f hf => by cases hp.symm.trans hf
    rw [← hv] at hunsettled hupvoted
    refine ha.carry rfl hnone ⟨_, ht⟩ ?_ ?_ hu
    · simpa [Run.isUnsettled, hp, Phase.isSettled] using hunsettled
    · simpa [hp, Phase.isUpvoted] using hupvoted
  | ended r hr hp ht hv hu =>
    have hunsettled := countP_leave ho hr Run.isUnsettled
    have hupvoted := countP_leave ho hr (·.phase.isUpvoted)
    have hnone := verdict?_of_not_failing (v := v) ho hr .none fun f hf => by cases hp.symm.trans hf
    rw [← hv] at hunsettled hupvoted
    refine ha.carry rfl hnone ⟨_, ht⟩ ?_ ?_ hu
    · simpa [Run.isUnsettled, hp, Phase.isSettled] using hunsettled
    · simpa [hp, Phase.isUpvoted] using hupvoted

end Accounted

def errand (n : Nat) (outcome : Outcome) : Job where
  id := .ofNat n
  isAsync := true
  plan := .finish outcome

end Worker

end Outbox
