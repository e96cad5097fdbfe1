import Outbox.Proofs.Session.Schedule

/-! # What happens by itself

The next thing that happens in a session by itself brings the job at hand nearer to its end, takes
up the first job that waits, or finds nothing to do. `Going` says so. Main statement:
`Sound.going`. -/
namespace Outbox
set_option autoImplicit false

namespace Session
open Worker
variable {peer : String} {lines : List String} {done held rest : List MessageJob} {s : Session}
  {r : Run} {j : MessageJob}

/-- What can have become of a session that goes on by itself. -/
inductive Going (peer : String) (lines : List String) (s : Session) : Option Session → Prop
  | stopped (h : s.worker.waiting = none → s.worker.toll = 0) : Going peer lines s none
  | on {s' : Session} (done held rest : List MessageJob) (hs : Sound peer lines done held rest s')
      (hw : s'.worker.waiting = s.worker.waiting)
      (ht : s'.worker.toll < s.worker.toll ∨ s.worker.toll = 0 ∧ s'.worker.toll = 0) :
      Going peer lines s (some s')

theorem Sound.held_mem (h : Sound peer lines done [j] rest s) : j ∈ errands peer lines := by
  rw [h.order]
  simp

/-! ## The run at hand -/

theorem next?_of_run (ho : s.worker.OnlyRun r) : s.next? = s.advance? r := by
  unfold next?
  rw [ho.runs]

theorem step?_of_run (ho : s.worker.OnlyRun r) (reply : Reply) :
    s.step? (.advance r.id reply) =
      (s.worker.advanceRun? r reply).map fun worker => { s with worker } := by
  unfold step?
  rw [step_of_run ho.runs]

/-- Unless it asks the surroundings, a run goes on by a step of its own. -/
theorem next?_of_advanceRun? (ho : s.worker.OnlyRun r) {w : Worker}
    (hrun : s.worker.advanceRun? r .none = some w)
    (hsend : ∀ request rest, r.phase ≠ .working (.send request rest)) :
    s.next? = some { s with worker := w } := by
  rw [next?_of_run ho]
  unfold advance?
  split
  · rename_i hp
    simp only [advanceRun?, hp] at hrun
    cases hrun
  · rename_i request rest hp
    exact absurd hp (hsend request rest)
  · rw [step?_of_run ho, hrun]
    rfl

/-- The run at hand goes on, with what it notes and counts. -/
theorem Sound.pass (h : Sound peer lines done held rest s) (ho : s.worker.OnlyRun r) {p : Phase}
    {news : List JournalEntry} {book : JobBook} {stats : Stats}
    (hrun : s.worker.advanceRun? r .none = some (s.worker.passed r p news book stats))
    (hsend : ∀ request rest, r.phase ≠ .working (.send request rest))
    (hbook : ∀ id, (book.get id).execution = none)
    (hnews : (news.filterMap (·.event.answer?)).reverse ++
      (Run.answer? { r with phase := p }).toList = r.answer?.toList)
    (hhand : (s.worker.passed r p news book stats).Hand done.length held)
    (hlegs : legs p < legs r.phase) : Going peer lines s s.next? := by
  have hanswers : (s.worker.passed r p news book stats).answers = s.worker.answers := by
    have hruns : ∀ q : Run, [q].filterMap Run.answer? = q.answer?.toList := by
      intro q
      cases hq : q.answer? with
      | none => rw [List.filterMap_cons_none hq]; rfl
      | some o => rw [List.filterMap_cons_some hq]; rfl
    unfold Worker.answers Worker.passed
    rw [ho.runs, hruns, hruns, List.filterMap_append, List.reverse_append, List.append_assoc,
      hnews]
  rw [next?_of_advanceRun? ho hrun hsend]
  refine .on done held rest { h with
    calm := { h.calm with unattached := hbook }
    hand := hhand
    answers := hanswers.trans h.answers } rfl (.inl ?_)
  have htoll := toll_passed ho p news book stats
  change (s.worker.passed r p news book stats).toll < s.worker.toll
  omega

/-- The connection is asked and answers at once. -/
theorem next?_of_sending (ho : s.worker.OnlyRun r)
    (hp : r.phase = .working (.sendLast j.request)) :
    s.next? = some { s with
      connection := (s.connection.execute j.request).2
      worker := s.worker.passed r (.working (.finish (s.connection.execute j.request).1))
        [⟨s.worker.now, .sent r.id j.request⟩] s.worker.book s.worker.stats } := by
  have hasked : s.worker.advanceRun? r .none = some (s.worker.passed r (.sending .finish)
      [⟨s.worker.now, .sent r.id j.request⟩] s.worker.book s.worker.stats) := by
    simp only [advanceRun?, hp, Plan.sendLast, followPlan]
    exact congrArg some (setPhase_of_run (by exact ho.runs) _)
  have hsent := ho.passed (.sending .finish) [⟨s.worker.now, .sent r.id j.request⟩]
    s.worker.book s.worker.stats
  have hanswered : ∀ o : Outcome, (s.worker.passed r (.sending .finish)
      [⟨s.worker.now, .sent r.id j.request⟩] s.worker.book s.worker.stats).advanceRun?
        { r with phase := .sending .finish } (.outcome o) =
      some (s.worker.passed r (.working (.finish o)) [⟨s.worker.now, .sent r.id j.request⟩]
        s.worker.book s.worker.stats) := fun o =>
    congrArg some (setPhase_of_run hsent.runs _)
  have hask : ({ s with connection := (s.connection.execute j.request).2 } : Session).step?
      (.advance r.id .none) = some { s with
        connection := (s.connection.execute j.request).2
        worker := s.worker.passed r (.sending .finish) [⟨s.worker.now, .sent r.id j.request⟩]
          s.worker.book s.worker.stats } :=
    (step?_of_run (by exact ho) _).trans (congrArg (Option.map _) hasked)
  rw [next?_of_run ho]
  unfold advance?
  rw [hp]
  refine (congrArg (Option.bind · _) hask).trans ?_
  exact (step?_of_run (r := { r with phase := .sending .finish }) (by exact hsent) _).trans
    (congrArg (Option.map _) (hanswered _))

/-- Its request is executed now: the message is done, though nobody is told of it yet. -/
theorem Sound.going_sending (h : Sound peer lines done [j] rest s) (ho : s.worker.OnlyRun r)
    (hphase : r.phase = .working (.sendLast j.request))
    (hc : s.worker.Counted (done.length + 1) done.length) : Going peer lines s s.next? := by
  rw [next?_of_sending ho hphase, h.connection, Loopback.execute_after, List.length_map]
  refine .on (done ++ [j]) [] rest { h with
    order := ?_
    calm := { h.calm with }
    hand := ?_
    connection := ?_
    answers := ?_ } rfl (.inl ?_)
  · rw [List.append_nil]
    exact h.order
  · rw [List.length_append, List.length_singleton]
    exact .answered { r with phase := .working _ } done.length (ho.passed _ _ _ _) (.noting _) rfl
      hc
  · rw [List.map_append]
    rfl
  · rw [List.length_append, List.length_singleton, Loopback.answers_succ, ← h.answers]
    simp [Worker.answers, Worker.passed, ho.runs, Run.answer?, hphase, Event.answer?,
      Plan.sendLast]
  · have htoll := toll_passed ho
      (.working (.finish (.ok (Loopback.transaction (.ofNat (done.length + 1))))))
      [⟨s.worker.now, .sent r.id j.request⟩] s.worker.book s.worker.stats
    rw [hphase] at htoll
    simp only [legs, Plan.sendLast] at htoll
    change (s.worker.passed r (.working (.finish (.ok (Loopback.transaction
      (.ofNat (done.length + 1)))))) [⟨s.worker.now, .sent r.id j.request⟩] s.worker.book
        s.worker.stats).toll < s.worker.toll
    omega

theorem Sound.going_outgoing (h : Sound peer lines done [j] rest s) (ho : s.worker.OnlyRun r)
    (hj : r.job = j.toJob) (ha : j.attachment = none) (hp : Outgoing j r.phase)
    (hc : s.worker.Counted (done.length + 1) done.length) : Going peer lines s s.next? := by
  have hplan : r.job.plan = j.plan := congrArg Job.plan hj
  have hhand : ∀ (p : Phase) (news : List JournalEntry), Outgoing j p →
      (s.worker.passed r p news s.worker.book s.worker.stats).Hand done.length [j] :=
    fun p news hp => .outgoing j { r with phase := p } (ho.passed p _ _ _) hj hp hc
  generalize hphase : r.phase = phase at hp
  cases hp with
  | ready =>
    have hrun : s.worker.advanceRun? r .none = some (s.worker.passed r
        (.starting (s.worker.audience r)) [] s.worker.book s.worker.stats) := by
      simp only [advanceRun?, hphase, beginRun, runCanceled_eq ho.kind, Bool.false_eq_true,
        if_false, setPhase_of_run ho.runs]
      rfl
    refine h.pass ho hrun (by simp [hphase]) h.calm.unattached ?_ (hhand _ _ (.starting _)) ?_
    · simp [Run.answer?, hphase]
    · simp [legs, hphase, length_audience h.calm ho]
  | starting ls =>
    cases ls with
    | nil =>
      have hrun : s.worker.advanceRun? r .none = some (s.worker.passed r
          (.working j.plan) [] s.worker.book s.worker.stats) := by
        simp only [advanceRun?, hphase, setPhase_of_run ho.runs, hplan]
        rfl
      refine h.pass ho hrun (by simp [hphase]) h.calm.unattached ?_ (hhand _ _ .looking) ?_
      · simp [Run.answer?, hphase, MessageJob.plan, Plan.unlessCanceled]
      · simp [legs, hphase, MessageJob.plan, Plan.unlessCanceled]
    | cons l ls =>
      have hrun : s.worker.advanceRun? r .none = some (s.worker.passed r
          (.starting ls) [⟨s.worker.now, .told r.id l .starting⟩] s.worker.book
          s.worker.stats) := by
        simp only [advanceRun?, hphase, Worker.tell]
        exact congrArg some (setPhase_of_run (by exact ho.runs) _)
      refine h.pass ho hrun (by simp [hphase]) h.calm.unattached ?_ (hhand _ _ (.starting _)) ?_
      · simp [Run.answer?, hphase, Event.answer?]
      · simp [legs, hphase]
  | looking =>
    have hrun : s.worker.advanceRun? r .none = some (s.worker.passed r
        (.working (.sendLast j.request)) [] s.worker.book s.worker.stats) := by
      simp only [advanceRun?, hphase, MessageJob.plan, Plan.unlessCanceled, ha, followPlan,
        jobCanceled_eq h.calm, Bool.false_eq_true, if_false, setPhase_of_run ho.runs]
      rfl
    refine h.pass ho hrun ?_ h.calm.unattached ?_ (hhand _ _ .sending) ?_
    · simp [hphase, MessageJob.plan, Plan.unlessCanceled]
    · simp [Run.answer?, hphase, MessageJob.plan, Plan.unlessCanceled, Plan.sendLast]
    · simp [legs, hphase, MessageJob.plan, Plan.unlessCanceled, Plan.sendLast]
  | sending => exact h.going_sending ho hphase hc

theorem Sound.going_answered (h : Sound peer lines done [] rest s) (ho : s.worker.OnlyRun r)
    {m : Nat} (hp : Answered r.phase) (hn : done.length = m + 1)
    (hc : s.worker.Counted done.length m) : Going peer lines s s.next? := by
  generalize hphase : r.phase = phase at hp
  cases hp with
  | noting tx =>
    have hrun : s.worker.advanceRun? r .none = some (s.worker.passed r
        (.completing tx (s.worker.audience r))
        [⟨s.worker.now, .finished r.id r.job.id⟩, ⟨s.worker.now, .returned r.id (.ok tx)⟩]
        (s.worker.book.finish r.job.id) s.worker.stats) := by
      simp only [advanceRun?, hphase, followPlan]
      exact congrArg some (setPhase_of_run (by exact ho.runs) _)
    refine h.pass ho hrun (by simp [hphase]) (unattached_finish h.calm _) ?_
      (.answered { r with phase := .completing tx _ } m (ho.passed _ _ _ _) (.telling tx _) hn
        hc) ?_
    · simp [Run.answer?, hphase, Event.answer?]
    · simp [legs, hphase, length_audience h.calm ho]
  | telling tx ls =>
    cases ls with
    | nil =>
      obtain ⟨startedAt, hstats⟩ := hc
      have hrun : s.worker.advanceRun? r .none = some (s.worker.passed r .exiting
          [⟨s.worker.now, .succeeded r.id⟩] s.worker.book
          { s.worker.stats with succeeded := s.worker.stats.succeeded + 1 }) := by
        simp only [advanceRun?, hphase, succeed]
        exact congrArg some (setPhase_of_run (by exact ho.runs) _)
      have hcounted : (s.worker.passed r .exiting [⟨s.worker.now, .succeeded r.id⟩] s.worker.book
          { s.worker.stats with succeeded := s.worker.stats.succeeded + 1 }).Counted
            done.length done.length := by
        refine ⟨startedAt, ?_⟩
        change ({ s.worker.stats with succeeded := s.worker.stats.succeeded + 1 } : Stats) = _
        rw [hstats, hn]
      refine h.pass ho hrun (by simp [hphase]) h.calm.unattached ?_
        (.leaving { r with phase := .exiting } (ho.passed _ _ _ _) rfl hcounted) ?_
      · simp [Run.answer?, hphase, Event.answer?]
      · simp [legs, hphase]
    | cons l ls =>
      have hrun : s.worker.advanceRun? r .none = some (s.worker.passed r
          (.completing tx ls) [⟨s.worker.now, .told r.id l (.done tx)⟩] s.worker.book
          s.worker.stats) := by
        simp only [advanceRun?, hphase, Worker.tell]
        exact congrArg some (setPhase_of_run (by exact ho.runs) _)
      refine h.pass ho hrun (by simp [hphase]) h.calm.unattached ?_
        (.answered { r with phase := .completing tx ls } m (ho.passed _ _ _ _) (.telling tx _) hn
          hc) ?_
      · simp [Run.answer?, hphase, Event.answer?]
      · simp [legs, hphase]

theorem Sound.going_leaving (h : Sound peer lines done [] rest s) (ho : s.worker.OnlyRun r)
    (hp : r.phase = .exiting) (hc : s.worker.Counted done.length done.length) :
    Going peer lines s s.next? := by
  obtain ⟨inFlight, hids, hexit⟩ := exit_of_onlyRun ho
  have hrun : s.worker.advanceRun? r .none = some (s.worker.exit r) := by
    simp only [advanceRun?, hp]
  rw [next?_of_advanceRun? ho hrun (by simp [hp]), hexit]
  refine .on done [] rest { h with
    calm := { h.calm with }
    hand := .free rfl ho.picked hids hc
    answers := ?_ } rfl (.inl ?_)
  · rw [← h.answers]
    simp [Worker.answers, ho.runs, Run.answer?, hp, Event.answer?]
  · unfold toll
    rw [ho.runs]
    simp [legs, hp]

/-! ## The loop -/

theorem next?_of_loop (hr : s.worker.runs = []) :
    s.next? = (s.worker.loopLabel? [] s.view).bind s.step? := by
  unfold next?
  rw [hr]

theorem next?_of_label (hr : s.worker.runs = []) {l : Label} {w : Worker}
    (hl : s.worker.loopLabel? [] s.view = some l) (hw : s.worker.step l = some w) :
    s.next? = some { s with worker := w } := by
  rw [next?_of_loop hr, hl]
  exact congrArg (Option.map _) hw

theorem Sound.spared (h : Sound peer lines done held rest s) {v : Worker} (ha : Spared s.worker v)
    (hroom : v.now.HasRoom) (hs : v.installed = true ∧ v.loop.stage = .running ∨
      v.installed = false ∧ 0 < rank v.loop.stage)
    (ho : v.loop.Orderly v.now) (hp : v.loop.picked = s.worker.loop.picked)
    (hq : v.loop.awaited.map (·.2) ++ v.waiting.toList.map (·.job) = rest.map (·.toJob))
    (hw : ∀ submission, v.waiting = some submission → submission.delay = .zero) :
    Sound peer lines done held rest { s with worker := v } :=
  { h with
    room := hroom
    calm := ha.calm h.calm
    stage := hs
    inbox := ho
    hand := h.hand.spared ha hp
    rest := hq
    undelayed := hw
    answers := ha.answers.trans h.answers }

/-- The loop comes nearer to its rounds. -/
theorem Sound.climb (h : Sound peer lines done held rest s) (hi : s.worker.installed = false)
    {stage : Stage} {rotation : Rotation} {news : List JournalEntry}
    (hn : ∀ e ∈ news, e.event.answer? = none) (hlow : 0 < rank stage)
    (hrank : rank stage < rank s.worker.loop.stage) :
    Going peer lines s (some { s with worker := { s.worker with
      rotation, loop := { s.worker.loop with stage }, journal := news ++ s.worker.journal } }) := by
  refine .on done held rest (h.spared ?_ h.room (.inr ⟨hi, hlow⟩) { h.inbox with } rfl
    h.rest h.undelayed) rfl (.inl ?_)
  · exact ⟨rfl, rfl, answers_of_news rfl rfl hn, fun hc => { hc with },
      fun _ _ hc => hc⟩
  · change rank stage + backlog s.worker.loop + (s.worker.runs.map fun r => legs r.phase).sum <
      rank s.worker.loop.stage + backlog s.worker.loop + _
    omega

theorem Sound.going_opening (h : Sound peer lines done held rest s) (hr : s.worker.runs = [])
    (hi : s.worker.installed = false) (hs : 0 < rank s.worker.loop.stage) :
    Going peer lines s s.next? := by
  generalize hstage : s.worker.loop.stage = stage at hs
  cases stage with
  | absent | running | exited => exact absurd hs (Nat.lt_irrefl 0)
  | entering =>
    have hw : s.worker.step .enter = some { s.worker with
        rotation := s.worker.rotation, loop := { s.worker.loop with stage := .pointing }
        journal := [] ++ s.worker.journal } := by
      simp [step, atStage, hstage, enter, setStage, h.calm.going]
    rw [next?_of_label hr (by simp only [loopLabel?, hstage]) hw]
    exact h.climb hi (List.forall_mem_nil _) (by decide) (by rw [hstage]; decide)
  | pointing =>
    obtain ⟨rotation, news, hnews, hrotate⟩ := rotate_eq s.worker
    have hw : s.worker.step .point = some { s.worker with
        rotation, loop := { s.worker.loop with stage := .opening }
        journal := news ++ s.worker.journal } := by
      simp [step, atStage, hstage, point, setStage, h.calm.linked, hrotate]
    rw [next?_of_label hr (by simp only [loopLabel?, hstage]) hw]
    exact h.climb hi (fun e he => Event.answer?_of_isQuiet (hnews e he).1) (by decide)
      (by rw [hstage]; decide)
  | opening =>
    have hw : s.worker.step .openLink = some { s.worker with
        rotation := s.worker.rotation, loop := { s.worker.loop with stage := .awaitingOpen }
        journal := [⟨s.worker.now, .link .start⟩] ++ s.worker.journal } := by
      simp [step, atStage, hstage, openLink, setStage, log]
    rw [next?_of_label hr (by simp only [loopLabel?, hstage]) hw]
    exact h.climb hi (List.forall_mem_singleton.mpr rfl) (by decide) (by rw [hstage]; decide)
  | awaitingOpen =>
    have hw : s.worker.step .opened = some { s.worker with
        rotation := s.worker.rotation, loop := { s.worker.loop with stage := .preparing }
        journal := [] ++ s.worker.journal } := by
      simp [step, atStage, hstage, setStage]
    rw [next?_of_label hr (by simp only [loopLabel?, hstage]) hw]
    exact h.climb hi (List.forall_mem_nil _) (by decide) (by rw [hstage]; decide)
  | preparing =>
    have hw : s.worker.step (.prepare []) = some { s.worker with
        installed := true
        stats := { s.worker.stats with startedAt := some s.worker.now }
        loop := { s.worker.loop with
          stage := .running, idleArmed := !s.worker.keepAlive.isHeld } } := by
      simp [step, atStage, hstage, prepare]
    rw [next?_of_label hr (by simp only [loopLabel?, hstage]) hw]
    refine .on done held rest
      (h.spared ?_ h.room (.inl ⟨rfl, rfl⟩) { h.inbox with } rfl h.rest h.undelayed) rfl (.inl ?_)
    · refine ⟨rfl, rfl, rfl, fun hc => { hc with }, fun dispatched succeeded hc => ?_⟩
      obtain ⟨startedAt, hstats⟩ := hc
      exact ⟨some s.worker.now, by rw [hstats]⟩
    · change rank .running + backlog s.worker.loop + _ < rank s.worker.loop.stage + _ + _
      rw [hstage]
      simp only [rank]
      omega

theorem Sound.going_round (h : Sound peer lines done [] rest s) (hr : s.worker.runs = [])
    (hp : s.worker.loop.picked = none) (hi : s.worker.inFlight.ids = [])
    (hc : s.worker.Counted done.length done.length) (hin : s.worker.installed = true)
    (hs : s.worker.loop.stage = .running) {v : Worker} (hv : Rounded s.worker v) :
    Going peer lines s (some { s with worker := v }) := by
  obtain ⟨l, news, ho, hstage, hn, hjobs⟩ := hv
  have hspared : Spared s.worker { s.worker with loop := l, journal := news ++ s.worker.journal } :=
    ⟨rfl, rfl, answers_of_news rfl rfl hn, fun hc => { hc with }, fun _ _ hc => hc⟩
  have hrunning : l.stage = .running := hstage.trans hs
  rcases hjobs with ⟨hpicked, hawaited, hidles⟩ | ⟨due, job, hpicked, hawaited, hidles⟩
  · have hrest : l.awaited.map (·.2) ++ s.worker.waiting.toList.map (·.job) = rest.map (·.toJob) :=
      hawaited ▸ h.rest
    refine .on done [] rest (h.spared hspared h.room (.inl ⟨hin, hrunning⟩) ho
      (hpicked.trans hp.symm) hrest h.undelayed) rfl ?_
    simp only [toll, backlog, hrunning, hs, hr, hpicked, hp, rank]
    rw [← hawaited]
    cases ha : l.awaited with
    | nil => exact .inr ⟨rfl, rfl⟩
    | cons a as =>
      have hless := hidles (by rw [ha]; exact List.cons_ne_nil a as)
      refine .inl ?_
      simp only [List.isEmpty_cons, Bool.false_eq_true, if_false]
      omega
  · have hrest := h.rest
    rw [hawaited, List.map_cons, List.cons_append] at hrest
    obtain ⟨j, later, rfl, hj, hlater⟩ := List.map_eq_cons_iff.mp hrest.symm
    refine .on done [j] later { h with
      order := ?_
      calm := hspared.calm h.calm
      stage := .inl ⟨hin, hrunning⟩
      inbox := ho
      hand := .picked j hr (hpicked.trans (congrArg some hj.symm)) hi hc
      rest := hlater.symm
      answers := hspared.answers.trans h.answers } rfl (.inl ?_)
    · rw [h.order, List.append_assoc, List.append_assoc]
      rfl
    · simp only [toll, backlog, hrunning, hs, hr, hpicked, hp, hidles, hawaited, rank]
      simp only [List.length_cons, List.isEmpty_cons]
      split <;> simp <;> omega

theorem Sound.going_free (h : Sound peer lines done [] rest s) (hr : s.worker.runs = [])
    (hp : s.worker.loop.picked = none) (hi : s.worker.inFlight.ids = [])
    (hc : s.worker.Counted done.length done.length) (hin : s.worker.installed = true)
    (hs : s.worker.loop.stage = .running) : Going peer lines s s.next? := by
  rw [next?_of_loop hr]
  unfold loopLabel?
  rw [hs, hp]
  dsimp only
  split
  · rename_i hrest
    refine .stopped fun _ => ?_
    have hnone := h.inbox.awaited_of_resting hrest
    simp [toll, backlog, hs, hp, hr, hnone, rank]
  · have hfree : s.worker.loopFree = true := by simp [loopFree, hs, hp, hr]
    rw [Option.bind_some]
    unfold step?
    simp only [step, hfree, Bool.true_and]
    split
    · exact h.going_round hr hp hi hc hin hs (rounded_iterate h.inbox hp)
    · rename_i hgate
      refine .stopped fun hw => absurd ?_ hgate
      simp [gateOpen, hw]

theorem Sound.going_picked (h : Sound peer lines done [j] rest s) (hr : s.worker.runs = [])
    (hp : s.worker.loop.picked = some j.toJob) (hi : s.worker.inFlight.ids = [])
    (hc : s.worker.Counted done.length done.length) (hs : s.worker.loop.stage = .running) :
    Going peer lines s s.next? := by
  obtain ⟨number, body, hj⟩ := exists_of_mem_errands h.held_mem
  have hid : j.uri.messageId = .ok ⟨number⟩ := hj ▸ messageId_errand peer number body
  have hview : (s.view j.toJob).connected = true ∧ (s.view j.toJob).canceled = false := by
    have hstored := h.stored j h.held_mem
    refine ⟨by rw [view, h.connection]; rfl, ?_⟩
    simp [view, MessageJob.toJob, MessageJob.ref, Store.contains, hstored]
  have hfreed : (s.worker.withLoop { s.worker.loop with picked := none }).Calm := { h.calm with }
  have hw : s.worker.step (.dispatch (s.view j.toJob)) =
      some ((s.worker.withLoop { s.worker.loop with picked := none }).dispatch j.toJob
        (s.view j.toJob)) := by
    simp only [step, dispatchPicked?, hp]
  rw [next?_of_label hr (by simp only [loopLabel?, hs, hp]) hw,
    dispatch_message hfreed hi hview.1 hview.2 hid (hj ▸ rfl) (hj ▸ rfl)]
  refine .on done [j] rest { h with
    calm := { h.calm with }
    inbox := { h.inbox with }
    hand := ?_
    answers := ?_ } rfl (.inl ?_)
  · have honly : ({ s.worker with runs := s.worker.runs ++ [sendingRun s.worker j ⟨number⟩] }
        : Worker).runs = [sendingRun s.worker j ⟨number⟩] := congrArg (· ++ _) hr
    refine .outgoing j (sendingRun s.worker j ⟨number⟩)
      ⟨honly, rfl, ?_, rfl, ⟨⟨number⟩, rfl, rfl⟩, rfl⟩ rfl .ready ?_
    · rw [sendingRun, hj]
      rfl
    · obtain ⟨startedAt, hstats⟩ := hc
      refine ⟨startedAt, ?_⟩
      change ({ s.worker.stats with dispatched := s.worker.stats.dispatched + 1 } : Stats) = _
      rw [hstats]
  · rw [← h.answers]
    simp [Worker.answers, withLoop, hr, Event.answer?, Run.answer?, sendingRun]
  · simp only [toll, backlog, withLoop, hs, hr, hp, sendingRun, legs, rank]
    change 0 + (12 * s.worker.loop.awaited.length + (if s.worker.loop.awaited.isEmpty then 0 else
      s.worker.loop.idles) + 0) + 10 < 0 + (_ + 11) + 0
    omega

/-- Whatever happens next by itself, the lines are sent in their order, and something happens as
long as there is something to do. -/
theorem Sound.going (h : Sound peer lines done held rest s) : Going peer lines s s.next? := by
  cases h.hand with
  | free hr hp hi hc =>
    rcases h.stage with ⟨hin, hs⟩ | ⟨hin, hs⟩
    · exact h.going_free hr hp hi hc hin hs
    · exact h.going_opening hr hin hs
  | picked j hr hp hi hc =>
    rcases h.stage with ⟨_, hs⟩ | ⟨hin, hs⟩
    · exact h.going_picked hr hp hi hc hs
    · exact h.going_opening hr hin hs
  | outgoing j r ho hj hp hc =>
    obtain ⟨number, body, rfl⟩ := exists_of_mem_errands h.held_mem
    exact h.going_outgoing ho hj rfl hp hc
  | answered r m ho hp hn hc => exact h.going_answered ho hp hn hc
  | leaving r ho hp hc => exact h.going_leaving ho hp hc

end Session

end Outbox
