import Outbox.Proofs.Executors.Roster
import Outbox.Proofs.Turns

/-! # After an interruption

What is left to happen once a worker is interrupted and no run is on its loop. Nothing begins, and
every executor goes on to its end: one that did not start yet is canceled, one in the middle of its
job finishes it, and one in the middle of a broadcast finishes that. `Wanes` compares two states of
such a worker, an earlier and a later one. Main statement: `steps_wanes`. -/
namespace Outbox
set_option autoImplicit false

namespace Phase

/-- The run has begun to tell its listeners that it starts, and its job has not ended. -/
def isUnderway : Phase → Bool
  | .starting _ | .working _ | .reporting _ _ _ | .sending _ | .completing _ _ => true
  | _ => false

/-- The run tells its listeners of a failure and counts their votes. -/
def isBlaming : Phase → Bool
  | .blaming _ _ _ | .voting _ _ _ _ => true
  | _ => false

/-- Who is still to be told that the run starts. -/
def unstarted : Phase → List ListenerName
  | .starting rest => rest
  | _ => []

/-- Who is still to be told of which failure. -/
def unblamed : Phase → List (ListenerName × Failure)
  | .blaming f rest _ | .voting _ f rest _ => rest.map (·, f)
  | _ => []

def MayTell (p : Phase) (l : ListenerName) : Notice → Prop
  | .starting => l ∈ p.unstarted
  | .error f => (l, f) ∈ p.unblamed
  | .progress _ | .done _ => p.isUnderway = true

/-- Nothing is left to do in the phase `q` that is not left to do in the phase `p`. -/
structure Within (q p : Phase) : Prop where
  underway : q.isUnderway = true → p.isUnderway = true
  blaming : q.isBlaming = true → p.isBlaming = true
  unstarted : q.unstarted ⊆ p.unstarted
  unblamed : q.unblamed ⊆ p.unblamed

namespace Within
variable {o p q : Phase}

theorem refl (p : Phase) : p.Within p :=
  ⟨id, id, List.Subset.refl _, List.Subset.refl _⟩

theorem trans (h : o.Within q) (h' : q.Within p) : o.Within p where
  underway := h'.underway ∘ h.underway
  blaming := h'.blaming ∘ h.blaming
  unstarted := List.Subset.trans h.unstarted h'.unstarted
  unblamed := List.Subset.trans h.unblamed h'.unblamed

/-- In a phase that neither works nor tells anyone anything there is nothing left. -/
theorem of_spent (p : Phase) (hu : q.isUnderway = false) (hb : q.isBlaming = false)
    (hs : q.unstarted = []) (he : q.unblamed = []) : q.Within p where
  underway h := Bool.noConfusion (hu.symm.trans h)
  blaming h := Bool.noConfusion (hb.symm.trans h)
  unstarted := hs ▸ List.nil_subset _
  unblamed := he ▸ List.nil_subset _

theorem of_started (hp : p.isUnderway = true) (hb : q.isBlaming = false) (hs : q.unstarted = [])
    (he : q.unblamed = []) : q.Within p where
  underway _ := hp
  blaming h := Bool.noConfusion (hb.symm.trans h)
  unstarted := hs ▸ List.nil_subset _
  unblamed := he ▸ List.nil_subset _

theorem mayTell (h : q.Within p) {l : ListenerName} {n : Notice} (hn : q.MayTell l n) :
    p.MayTell l n := by
  cases n with
  | starting => exact h.unstarted hn
  | error f => exact h.unblamed hn
  | progress | done => exact h.underway hn

theorem underway_le (h : q.Within p) : q.isUnderway.toNat ≤ p.isUnderway.toNat := by
  cases hq : q.isUnderway with
  | false => exact Nat.zero_le _
  | true => exact Nat.le_of_eq (congrArg Bool.toNat (h.underway hq).symm)

theorem blaming_le (h : q.Within p) : q.isBlaming.toNat ≤ p.isBlaming.toNat := by
  cases hq : q.isBlaming with
  | false => exact Nat.zero_le _
  | true => exact Nat.le_of_eq (congrArg Bool.toNat (h.blaming hq).symm)

end Within

end Phase

namespace Worker

/-- What may still happen to a worker that is interrupted in the state `w`. -/
def Leftover (w : Worker) : Event → Prop
  | .begun _ _ _ | .accepted _ | .failed _ _ | .link .shutdown => False
  | .told run l n => ∃ r ∈ w.runs, r.id = run ∧ r.phase.MayTell l n
  | .reported run _ | .sent run _ | .returned run _ | .finished run _ | .succeeded run =>
    ∃ r ∈ w.runs, r.id = run ∧ r.phase.isUnderway = true
  | .voted run _ _ => ∃ r ∈ w.runs, r.id = run ∧ r.phase.isBlaming = true
  | _ => True

/-- What is counted of runs. -/
def tally (w : Worker) : Nat × Nat × Nat × Nat :=
  (w.stats.dispatched, w.stats.failed, w.stats.succeeded, w.stats.requeued)

def underway (w : Worker) : Nat := w.runs.countP (·.phase.isUnderway)

def blaming (w : Worker) : Nat := w.runs.countP (·.phase.isBlaming)

/-- The runs of `u` are runs of `w`, and nothing is left to them that was not left to them then. -/
def RunsWithin (u w : Worker) : Prop :=
  ∀ q ∈ u.runs, ∃ r ∈ w.runs, r.id = q.id ∧ r.kind = q.kind ∧ q.phase.Within r.phase

/-- `u` is a later state of the interrupted worker `w`. -/
structure Wanes (w u : Worker) : Prop where
  runs : u.RunsWithin w
  news : ∃ news, u.journal = news ++ w.journal ∧ ∀ e ∈ news, w.Leftover e.event
  dispatched : u.stats.dispatched = w.stats.dispatched
  failed : u.stats.failed = w.stats.failed
  succeeded : w.stats.succeeded ≤ u.stats.succeeded ∧
    u.stats.succeeded + u.underway ≤ w.stats.succeeded + w.underway
  requeued : w.stats.requeued ≤ u.stats.requeued ∧
    u.stats.requeued + u.blaming ≤ w.stats.requeued + w.blaming

variable {config : Config} {w v u : Worker} {r : Run} {reply : Reply}

theorem Leftover.of_quiet (w : Worker) {e : Event} (he : e.isQuiet = true) : w.Leftover e := by
  cases e with
  | posted | handled | idleSet | refused | markedIdle | signal => trivial
  | link c =>
    cases c with
    | start | point => trivial
    | shutdown => cases he
  | _ => cases he

theorem Leftover.of_runs (h : u.RunsWithin w) {e : Event} (he : u.Leftover e) : w.Leftover e := by
  cases e with
  | told run l n =>
    obtain ⟨q, hq, rfl, htell⟩ := he
    obtain ⟨r, hr, hid, _, hw⟩ := h q hq
    exact ⟨r, hr, hid, hw.mayTell htell⟩
  | reported | sent | returned | finished | succeeded =>
    obtain ⟨q, hq, rfl, hu⟩ := he
    obtain ⟨r, hr, hid, _, hw⟩ := h q hq
    exact ⟨r, hr, hid, hw.underway hu⟩
  | voted =>
    obtain ⟨q, hq, rfl, hb⟩ := he
    obtain ⟨r, hr, hid, _, hw⟩ := h q hq
    exact ⟨r, hr, hid, hw.blaming hb⟩
  | begun | accepted | failed => cases he
  | link c =>
    cases c with
    | shutdown => cases he
    | start | point => trivial
  | _ => trivial

theorem RunsWithin.of_subset (h : v.runs ⊆ w.runs) : v.RunsWithin w :=
  fun q hq => ⟨q, h hq, rfl, rfl, .refl _⟩

namespace Wanes

theorem trans (h : Wanes w v) (h' : Wanes v u) : Wanes w u where
  runs q hq := by
    obtain ⟨s, hs, hid, hkind, hw⟩ := h'.runs q hq
    obtain ⟨r, hr, hid', hkind', hw'⟩ := h.runs s hs
    exact ⟨r, hr, hid'.trans hid, hkind'.trans hkind, hw.trans hw'⟩
  news := by
    obtain ⟨news, hj, hnews⟩ := h.news
    obtain ⟨news', hj', hnews'⟩ := h'.news
    refine ⟨news' ++ news, ?_, List.forall_mem_append.mpr ⟨?_, hnews⟩⟩
    · rw [hj', hj, List.append_assoc]
    · exact fun e he => .of_runs h.runs (hnews' e he)
  dispatched := h'.dispatched.trans h.dispatched
  failed := h'.failed.trans h.failed
  succeeded :=
    ⟨Nat.le_trans h.succeeded.1 h'.succeeded.1, Nat.le_trans h'.succeeded.2 h.succeeded.2⟩
  requeued := ⟨Nat.le_trans h.requeued.1 h'.requeued.1, Nat.le_trans h'.requeued.2 h.requeued.2⟩

theorem of_same (news : List JournalEntry) (hruns : v.runs = w.runs) (htally : v.tally = w.tally)
    (hj : v.journal = news ++ w.journal) (hnews : ∀ e ∈ news, w.Leftover e.event) : Wanes w v := by
  obtain ⟨hd, hf, hs, hq⟩ : v.stats.dispatched = w.stats.dispatched ∧
      v.stats.failed = w.stats.failed ∧ v.stats.succeeded = w.stats.succeeded ∧
      v.stats.requeued = w.stats.requeued := by
    simpa only [tally, Prod.mk.injEq] using htally
  have hu : v.underway = w.underway := by rw [underway, hruns, underway]
  have hb : v.blaming = w.blaming := by rw [blaming, hruns, blaming]
  refine ⟨.of_subset (hruns ▸ List.Subset.refl _), ⟨news, hj, hnews⟩, hd, hf, ?_, ?_⟩
  · rw [hs, hu]
    exact ⟨Nat.le_refl _, Nat.le_refl _⟩
  · rw [hq, hb]
    exact ⟨Nat.le_refl _, Nat.le_refl _⟩

theorem refl (w : Worker) : Wanes w w :=
  .of_same [] rfl rfl rfl (List.forall_mem_nil _)

end Wanes

/-! ## One step of an executor -/

/-- What a canceled executor of an interrupted worker can do. -/
inductive Faded (w : Worker) (r : Run) : Worker → Prop
  | going (succeeded requeued : Nat) (book : JobBook) (events : List Event) (p : Phase)
      (hevents : ∀ e ∈ events, w.Leftover e) (hphase : p.Within r.phase)
      (hs : w.stats.succeeded ≤ succeeded ∧
        succeeded + p.isUnderway.toNat ≤ w.stats.succeeded + r.phase.isUnderway.toNat)
      (hq : w.stats.requeued ≤ requeued ∧
        requeued + p.isBlaming.toNat ≤ w.stats.requeued + r.phase.isBlaming.toNat) :
      Faded w r ((events.foldl log { w with
        book, stats := { w.stats with succeeded, requeued } }).setPhase r.id p)
  | refused (hp : r.phase = .requeueing) :
      Faded w r ((w.refuse r.job .interrupted).setPhase r.id .exiting)
  | ended (hp : r.phase = .exiting) : Faded w r (w.exit r)

namespace Faded

theorem noting {p : Phase} (hphase : p.Within r.phase) (book : JobBook) (events : List Event)
    (hevents : ∀ e ∈ events, w.Leftover e) :
    Faded w r ((events.foldl log { w with book }).setPhase r.id p) :=
  .going _ _ book events p hevents hphase ⟨Nat.le_refl _, Nat.add_le_add_left hphase.underway_le _⟩
    ⟨Nat.le_refl _, Nat.add_le_add_left hphase.blaming_le _⟩

end Faded

theorem faded_of_stride (hi : w.interrupted = true) (hr : r ∈ w.runs)
    (hc : w.runCanceled r = true) (book : JobBook) {notice : Option Notice} {events : List Event}
    {p : Phase} (hs : Stride w r reply notice events p) :
    Faded w r ((events.foldl log { w with
      book, stats := tallied w.stats events p }).setPhase r.id p) := by
  cases hs with
  | cancel hp =>
    exact .noting (.of_spent _ rfl rfl rfl rfl) book [] (List.forall_mem_nil _)
  | start _ hn => cases hc.symm.trans hn
  | tellStart hp =>
    refine .noting ?_ book [_] (List.forall_mem_singleton.mpr ⟨r, hr, rfl, ?_⟩) <;> rw [hp]
    · exact ⟨id, id, List.subset_cons_self _ _, List.Subset.refl _⟩
    · exact List.mem_cons_self
  | execute hp | resume hp | poll hp | answer _ hp =>
    exact .noting (.of_started (hp ▸ rfl) rfl rfl rfl) book [] (List.forall_mem_nil _)
  | report hp | send hp | giveUp hp | tellProgress hp | tellDone hp =>
    have hu : r.phase.isUnderway = true := hp ▸ rfl
    exact .noting (.of_started hu rfl rfl rfl) book [_]
      (List.forall_mem_singleton.mpr ⟨r, hr, rfl, hu⟩)
  | finish hp =>
    have hu : r.phase.isUnderway = true := hp ▸ rfl
    exact .noting (.of_started hu rfl rfl rfl) book [_, _]
      (List.forall_mem_cons.mpr ⟨⟨r, hr, rfl, hu⟩, List.forall_mem_singleton.mpr ⟨r, hr, rfl, hu⟩⟩)
  | succeed hp =>
    have hu : r.phase.isUnderway = true := hp ▸ rfl
    refine .going (w.stats.succeeded + 1) _ book [.succeeded r.id] .exiting
      (List.forall_mem_singleton.mpr ⟨r, hr, rfl, hu⟩) (.of_spent _ rfl rfl rfl rfl)
      ⟨Nat.le_succ _, ?_⟩ ⟨Nat.le_refl _, Nat.le_add_right _ _⟩
    rw [hu]
    exact Nat.le_refl _
  | abandon =>
    exact .noting (.of_spent _ rfl rfl rfl rfl) book [_] (List.forall_mem_singleton.mpr trivial)
  | blame _ hh =>
    rw [hushes, hi, Bool.or_true, Bool.true_or] at hh
    cases hh
  | tellError hp =>
    refine .noting ?_ book [_] (List.forall_mem_singleton.mpr ⟨r, hr, rfl, ?_⟩) <;> rw [hp]
    · exact ⟨id, id, List.Subset.refl _, List.subset_cons_self _ _⟩
    · exact List.mem_cons_self
  | vote v hp =>
    have hb : r.phase.isBlaming = true := hp ▸ rfl
    refine .noting ?_ book [_] (List.forall_mem_singleton.mpr ⟨r, hr, rfl, hb⟩)
    rw [hp]
    exact ⟨id, id, List.Subset.refl _, List.Subset.refl _⟩
  | @count f vote hp =>
    have hb : r.phase.isBlaming = true := hp ▸ rfl
    cases vote with
    | true =>
      refine .going _ (w.stats.requeued + 1) book [] .requeueing (List.forall_mem_nil _)
        (.of_spent _ rfl rfl rfl rfl) ⟨Nat.le_refl _, Nat.le_add_right _ _⟩ ⟨Nat.le_succ _, ?_⟩
      rw [hb]
      exact Nat.le_refl _
    | false => exact .noting (.of_spent _ rfl rfl rfl rfl) book [] (List.forall_mem_nil _)

theorem faded_of_advance (hi : w.interrupted = true) (hr : r ∈ w.runs)
    (hc : w.runCanceled r = true) (h : w.advanceRun? r reply = some v) : Faded w r v := by
  cases advanceRun_strode h with
  | stride book hs => exact faded_of_stride hi hr hc book hs
  | requeued hp =>
    rw [requeue, look_of_interrupted hi]
    exact .refused hp
  | ended hp => exact .ended hp

/-! ## What a step leaves of the runs -/

namespace Wanes

theorem setPhase (ho : w.ledger.Owned) (hr : r ∈ w.runs) {p : Phase} (hphase : p.Within r.phase)
    (news : List JournalEntry) (hruns : u.runs = w.runs) (hj : u.journal = news ++ w.journal)
    (hnews : ∀ e ∈ news, w.Leftover e.event) (hd : u.stats.dispatched = w.stats.dispatched)
    (hf : u.stats.failed = w.stats.failed)
    (hs : w.stats.succeeded ≤ u.stats.succeeded ∧
      u.stats.succeeded + p.isUnderway.toNat ≤ w.stats.succeeded + r.phase.isUnderway.toNat)
    (hq : w.stats.requeued ≤ u.stats.requeued ∧
      u.stats.requeued + p.isBlaming.toNat ≤ w.stats.requeued + r.phase.isBlaming.toNat) :
    Wanes w (u.setPhase r.id p) := by
  have hset : (u.setPhase r.id p).runs = (w.setPhase r.id p).runs := congrArg (List.map _) hruns
  refine ⟨?_, ⟨news, hj, hnews⟩, hd, hf, ⟨hs.1, ?_⟩, ⟨hq.1, ?_⟩⟩
  · obtain ⟨a, b, hab, _, hsplit⟩ := runs_split ho hr
    intro q hmem
    rw [hset, hsplit, List.mem_append, List.mem_cons] at hmem
    rcases hmem with hmem | rfl | hmem
    · exact ⟨q, hab ▸ List.mem_append_left _ hmem, rfl, rfl, .refl _⟩
    · exact ⟨r, hr, rfl, rfl, hphase⟩
    · exact ⟨q, hab ▸ List.mem_append_right _ (List.mem_cons_of_mem _ hmem), rfl, rfl, .refl _⟩
  · have hcount := countP_setPhase ho hr (·.phase.isUnderway) p
    rw [underway, underway, hset]
    have hle := hs.2
    change u.stats.succeeded + _ ≤ _
    dsimp only at hcount
    omega
  · have hcount := countP_setPhase ho hr (·.phase.isBlaming) p
    rw [blaming, blaming, hset]
    have hle := hq.2
    change u.stats.requeued + _ ≤ _
    dsimp only at hcount
    omega

/-- Before what is quiet anything may change but the runs, what is counted of them and the
journal. -/
theorem of_quiet (h : Quiet u v) (hruns : u.runs = w.runs) (htally : u.tally = w.tally)
    (hj : u.journal = w.journal) : Wanes w v := by
  obtain ⟨_, _, _, _, _, _, _, news, _, _, hnews⟩ := h
  exact .of_same news hruns htally (congrArg (news ++ ·) hj) fun e he => .of_quiet w (hnews e he).1

theorem freed (w : Worker) (r : Run) : Wanes w (w.freed r) := by
  obtain ⟨_, _, hquiet⟩ := freed_spec w r
  exact .of_quiet hquiet rfl rfl rfl

theorem exit (w : Worker) (r : Run) : Wanes w (w.exit r) := by
  obtain ⟨listeners, he⟩ := exit_spec w r
  have hsub : (w.exit r).runs.Sublist (w.freed r).runs := by
    rw [he]
    exact List.filter_sublist
  refine (freed w r).trans ⟨.of_subset hsub.subset, ?_, ?_, ?_, ?_, ?_⟩
  · refine ⟨[⟨(w.freed r).now, .ended r.id⟩], ?_, List.forall_mem_singleton.mpr trivial⟩
    rw [he]
    rfl
  · rw [he]
    rfl
  · rw [he]
    rfl
  · have hle := hsub.countP_le (p := (·.phase.isUnderway))
    have hs : (w.exit r).stats.succeeded = (w.freed r).stats.succeeded := by
      rw [he]
      rfl
    exact ⟨Nat.le_of_eq hs.symm, hs ▸ Nat.add_le_add_left hle _⟩
  · have hle := hsub.countP_le (p := (·.phase.isBlaming))
    have hq : (w.exit r).stats.requeued = (w.freed r).stats.requeued := by
      rw [he]
      rfl
    exact ⟨Nat.le_of_eq hq.symm, hq ▸ Nat.add_le_add_left hle _⟩

theorem of_faded (ho : w.ledger.Owned) (hr : r ∈ w.runs) (h : Faded w r v) : Wanes w v := by
  cases h with
  | going succeeded requeued book events p hevents hphase hs hq =>
    rw [noted_eq]
    refine .setPhase ho hr hphase _ rfl rfl ?_ rfl rfl hs hq
    intro e he
    obtain ⟨event, hmem, rfl⟩ := List.mem_map.mp (List.mem_reverse.mp he)
    exact hevents event hmem
  | refused hp =>
    have hphase : Phase.exiting.Within r.phase := .of_spent _ rfl rfl rfl rfl
    exact .setPhase ho hr hphase [⟨w.now, .refused r.job.id .interrupted⟩] rfl rfl
      (List.forall_mem_singleton.mpr trivial) rfl rfl
      ⟨Nat.le_refl _, Nat.le_add_right _ _⟩ ⟨Nat.le_refl _, Nat.le_add_right _ _⟩
  | ended => exact exit w r

end Wanes

/-! ## Every step -/

/-- An executor of an interrupted worker is canceled. -/
theorem executor_canceled (h : Reachable config w) (hi : w.interrupted = true) (hr : r ∈ w.runs)
    (hk : r.kind.onLoop = false) : w.runCanceled r = true := by
  cases hkind : r.kind with
  | inline | refused =>
    rw [hkind] at hk
    cases hk
  | detached ticket handle =>
    have hslot : (ticket, handle) ∈ w.slots :=
      List.mem_filterMap.mpr ⟨r, hr, by rw [Run.slot?, hkind]⟩
    rw [runCanceled, hkind]
    exact (roster_sound h).canceled hi _ hslot

theorem step_wanes (h : Reachable config w) (hi : w.interrupted = true)
    (hloop : ∀ r ∈ w.runs, r.kind.onLoop = false) {l : Label} (hs : w.step l = some v) :
    Wanes w v := by
  cases step_footprint hs with
  | quiet _ hv => exact .of_quiet hv rfl rfl rfl
  | look s _ hv =>
    cases hv with
    | quiet hv => exact .of_quiet hv rfl rfl rfl
    | accepted _ _ hopen => cases hopen.symm.trans hi
  | hold hv | release hv => exact .of_quiet hv rfl rfl rfl
  | shutdown hopen => cases hopen.symm.trans hi
  | cancel | start | join | enter | close =>
    exact .of_same [] rfl rfl rfl (List.forall_mem_nil _)
  | climb s rotation news _ _ _ hnews =>
    exact .of_same news rfl rfl rfl fun e he => .of_quiet w (hnews e he).1
  | prepare pending mailbox =>
    refine .of_same _ rfl rfl rfl fun e he => ?_
    unfold replay at he
    split at he
    · cases he
    · obtain ⟨job, _, rfl⟩ := List.mem_map.mp (List.mem_reverse.mp he)
      trivial
  | dispatch view job hp hd =>
    cases hd with
    | closed reason =>
      refine .of_same [⟨w.now, .dropped job.id reason⟩] rfl ?_ rfl
        (List.forall_mem_singleton.mpr trivial)
      cases reason <;> rfl
    | duplicate _ ho | refused _ _ _ ho | inline _ _ _ _ ho | detached _ _ _ _ ho
    | unstarted _ _ ho =>
      cases (not_interrupted_of_isOpen ho).symm.trans hi
  | advance r reply hr ha =>
    have hc := executor_canceled h hi hr (hloop r hr)
    exact .of_faded (owned h) hr (faded_of_advance hi hr hc ha)

theorem steps_wanes (h : Reachable config w) (hi : w.interrupted = true)
    (hloop : ∀ r ∈ w.runs, r.kind.onLoop = false) {ls : List Label} (hs : w.steps ls = some u) :
    Wanes w u := by
  induction ls generalizing w with
  | nil =>
    cases hs
    exact .refl _
  | cons l ls ih =>
    obtain ⟨v, hl, hv⟩ := steps_cons_eq_some.mp hs
    have hw := step_wanes h hi hloop hl
    have hloop' : ∀ q ∈ v.runs, q.kind.onLoop = false := by
      intro q hq
      obtain ⟨r, hr, _, hkind, _⟩ := hw.runs q hq
      exact hkind ▸ hloop r hr
    exact hw.trans (ih (h.step hl) (interrupted_of_step hi hl) hloop' hv)

end Worker

end Outbox
