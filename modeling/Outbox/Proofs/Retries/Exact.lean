import Outbox.Proofs.Idle.Steps
import Outbox.Proofs.InFlight.Retry
import Outbox.Proofs.Retries.Resubmission
import Outbox.Proofs.Runs.Follow
import Outbox.Proofs.Runs.Protocol

/-! # A retry for a vote

A run puts its job back at most once. It comes to do so exactly if its failure was reported and one
of the listeners of its lane voted for it, and then the job is posted unless the worker has been
shut down. `Stand` says how far a run is with it. Main statement: `stand_of_steps`. -/
namespace Outbox.Worker
set_option autoImplicit false

variable {config : Config} {h : List Moment} {w v : Worker} {l : Label} {r first : Run} {n : Nat}
  {es : List Event}

/-! ## Votes -/

theorem mem_ballots {name : ListenerName} {vote : Bool} :
    (name, vote) ∈ ballots (w.chronicle n) ↔ .voted n name vote ∈ w.chronicle n := by
  constructor
  · intro hmem
    obtain ⟨e, he, hb⟩ := List.mem_filterMap.mp hmem
    cases e with
    | voted run l' v =>
      cases hb
      have hrun : some run = some n := of_decide_eq_true (List.mem_filter.mp he).2
      cases hrun
      exact he
    | _ => cases hb
  · exact fun hmem => List.mem_filterMap.mpr ⟨_, hmem, rfl⟩

/-- Nobody voted for a retry. -/
def Unvoted (n : Nat) (es : List Event) : Prop := ∀ name, .voted n name true ∉ es

theorem unvoted_of_ballots (hb : (ballots es).any Prod.snd = false) : Unvoted n es := by
  intro name hmem
  have hin : (name, true) ∈ ballots es := List.mem_filterMap.mpr ⟨_, hmem, rfl⟩
  exact absurd rfl (List.any_eq_false.mp hb _ hin)

/-- A run comes to its end without a retry only if nobody voted for one. -/
theorem unvoted_of_stride (hpoll : Poll h es r) {reply : Reply} {notice : Option Notice}
    {events : List Event} {p : Phase} (hs : Stride w r reply notice events p)
    (hp : p = .exiting) : Unvoted r.id (es ++ events) := by
  have hnone : r.phase.isSettled = false → ballots events = [] →
      Unvoted r.id (es ++ events) := by
    intro hearly hevents
    refine unvoted_of_ballots ?_
    rw [ballots_append, hpoll.ballots_eq_nil hearly, hevents]
    rfl
  cases hs with
  | succeed hphase => exact hnone (hphase ▸ rfl) rfl
  | abandon hphase => exact hnone (hphase ▸ rfl) rfl
  | @count f vote hphase =>
    cases vote with
    | true => cases hp
    | false =>
      rw [List.append_nil]
      exact unvoted_of_ballots (hpoll.of_blaming hphase).2.symm
  | _ => cases hp

/-! ## How far a run is -/

/-- The run is over, or has nothing left to do but to give back what it holds. -/
def Through (w : Worker) (n : Nat) : Prop :=
  n ≤ w.lastRun ∧ ∀ r ∈ w.runs, r.id = n → r.phase = .exiting

/-- The failure of the run was reported, and one of those who were told voted for a retry. -/
def Upheld (h : List Moment) (w : Worker) (n : Nat) : Prop :=
  ∃ f voters, ∃ m ∈ h, m.Asks n f voters ∧ ∃ name ∈ voters, .voted n name true ∈ w.chronicle n

inductive Stand (h : List Moment) (w : Worker) (n : Nat) : Prop
  | underway (hlive : n ≤ w.lastRun → ∃ r ∈ w.runs, r.id = n ∧ r.phase ≠ .exiting)
      (hn : retries h n = []) (hq : ∀ m ∈ h, ¬ m.Resubmits n) : Stand h w n
  | spared (ht : w.Through n) (hn : retries h n = []) (hq : ∀ m ∈ h, ¬ m.Resubmits n)
      (hv : Unvoted n (w.chronicle n)) : Stand h w n
  | resubmitted (ht : w.Through n) (m : Moment) (hm : m ∈ h) (hq : m.Resubmits n)
      (honly : ∀ m' ∈ h, m'.Resubmits n → m' = m) (hn : retries h n = m.requested)
      (hafter : ∀ m' ∈ h, ∀ f voters, m'.Asks n f voters → m'.source.now ≤ m.source.now)
      (hv : Upheld h w n) : Stand h w n

theorem Upheld.snoc (hu : Upheld h w n) (m : Moment)
    (hc : ∀ name, .voted n name true ∈ w.chronicle n → .voted n name true ∈ v.chronicle n) :
    Upheld (h ++ [m]) v n := by
  obtain ⟨f, voters, m', hm', ha, name, hname, hvote⟩ := hu
  exact ⟨f, voters, m', List.mem_append_left _ hm', ha, name, hname, hc name hvote⟩

theorem forall_mem_snoc {P : Moment → Prop} {m : Moment} (hall : ∀ x ∈ h, P x) (hm : P m) :
    ∀ x ∈ h ++ [m], P x :=
  List.forall_mem_append.mpr ⟨hall, List.forall_mem_singleton.mpr hm⟩

/-! ## Steps that leave the job alone -/

/-- As long as the run does not come to ask for a retry, nothing is put back. -/
theorem retries_stay (hw : Reachable config w) (hs : w.step l = some v) (h : List Moment)
    (hp : ∀ r ∈ w.runs, r.id = n → r.phase ≠ .requeueing) :
    retries (h ++ [⟨w, l, v⟩]) n = retries h n ∧ ¬ Moment.Resubmits ⟨w, l, v⟩ n := by
  constructor
  · cases hm : Moment.isOf ⟨w, l, v⟩ n with
    | false => exact retries_snoc_of_apart h hm
    | true =>
      obtain ⟨reply, rfl⟩ := Moment.isOf_iff.mp hm
      obtain ⟨r, hr, rfl, hrun⟩ := advance_of_step hs
      rw [retries_snoc_of_own h hm]
      rcases requested_advance hw hr hrun with ⟨hq, _⟩ | ⟨_, hnone⟩
      · exact absurd hq (hp r hr rfl)
      · rw [hnone, List.append_nil]
  · rintro ⟨r, hr, hid, hq, _⟩
    exact hp r hr hid hq

/-- A run that was about to ask for a retry and still is did not move. -/
theorem retries_wait (hw : Reachable config w) (hs : w.step l = some v) (h : List Moment)
    (hr : r ∈ w.runs) (hr' : r ∈ v.runs) (hp : r.phase = .requeueing) :
    retries (h ++ [⟨w, l, v⟩]) r.id = retries h r.id ∧
      ¬ Moment.Resubmits ⟨w, l, v⟩ r.id := by
  have hapart : Moment.isOf ⟨w, l, v⟩ r.id = false := by
    refine Bool.eq_false_iff.mpr fun hm => ?_
    obtain ⟨reply, rfl⟩ := Moment.isOf_iff.mp hm
    obtain ⟨q, hq, hid, hrun⟩ := advance_of_step hs
    obtain rfl := (owned hw).eq_of_id hq hr hid
    rcases requested_advance hw hr hrun with ⟨_, rfl, _⟩ | ⟨hne, _⟩
    · have hthrough := step_requeue hw hr hp hs
      have hsame := (owned (hw.step hs)).eq_of_id hthrough hr' rfl
      cases hp.symm.trans (congrArg Run.phase hsame.symm)
    · exact hne hp
  refine ⟨retries_snoc_of_apart h hapart, ?_⟩
  rintro ⟨_, _, _, _, hl⟩
  exact Bool.eq_false_iff.mp hapart (Moment.isOf_iff.mpr ⟨.none, hl⟩)

/-! ## One step -/

theorem Through.of_gone (hle : n ≤ w.lastRun) (hgone : ∀ q ∈ w.runs, q.id ≠ n) : w.Through n :=
  ⟨hle, fun r hr hid => absurd hid (hgone r hr)⟩

theorem Through.of_live (hw : Reachable config w) (hr : r ∈ w.runs) (hp : r.phase = .exiting) :
    w.Through r.id :=
  ⟨(owned hw).run_le r hr, fun _ hq hid => (owned hw).eq_of_id hq hr hid ▸ hp⟩

namespace Stand

/-- What was settled stays so. -/
theorem settled (hst : Stand h w n) (ht : w.Through n) (ht' : v.Through n)
    (hn : retries (h ++ [⟨w, l, v⟩]) n = retries h n) (hq : ¬ Moment.Resubmits ⟨w, l, v⟩ n)
    (hc : ∀ name, .voted n name true ∈ v.chronicle n ↔ .voted n name true ∈ w.chronicle n) :
    Stand (h ++ [⟨w, l, v⟩]) v n := by
  cases hst with
  | underway hlive =>
    obtain ⟨r, hr, hid, hp⟩ := hlive ht.1
    exact absurd (ht.2 r hr hid) hp
  | spared _ hnone hnever hvotes =>
    exact .spared ht' (hn.trans hnone) (forall_mem_snoc hnever hq)
      fun name hvote => hvotes name ((hc name).mp hvote)
  | resubmitted _ m' hm' hq' honly hone hafter hvotes =>
    refine .resubmitted ht' m' (List.mem_append_left _ hm') hq'
      (forall_mem_snoc honly fun hm => absurd hm hq) (hn.trans hone)
      (forall_mem_snoc hafter ?_) (hvotes.snoc _ fun name => (hc name).mpr)
    rintro f voters ⟨r, hr, hid, hp, _⟩
    cases hp.symm.trans (ht.2 r hr hid)

/-- The job is put back, in the only step in which it can be. -/
theorem requeue (hst : Stand h w r.id) (hw : Reachable config w) (hr : r ∈ w.runs)
    (hs : w.step (.advance r.id .none) = some v) (hp : r.phase = .requeueing)
    (hpoll : Poll h (w.chronicle r.id) r) (hpast : ∀ m ∈ h, m.source.now ≤ w.now)
    (hc : v.chronicle r.id = w.chronicle r.id) :
    Stand (h ++ [⟨w, .advance r.id .none, v⟩]) v r.id := by
  let m : Moment := ⟨w, .advance r.id .none, v⟩
  have hthrough := Through.of_live (hw.step hs) (step_requeue hw hr hp hs) rfl
  have hown : m.Resubmits r.id := ⟨r, hr, rfl, hp, rfl⟩
  have hupheld : Upheld h w r.id := by
    cases hpoll with
    | requeueing _ ha hv =>
      obtain ⟨f, asked, hmem, ha⟩ := ha
      obtain ⟨⟨name, vote⟩, hballot, rfl⟩ := List.any_eq_true.mp hv
      exact ⟨f, _, asked, hmem, ha, name, List.mem_map.mpr ⟨_, hballot, rfl⟩,
        mem_ballots.mp hballot⟩
    | early hphase | asking _ _ _ hphase | waiting _ _ _ _ hphase | exiting hphase =>
      rw [hp] at hphase
      cases hphase
  cases hst with
  | underway _ hnone hnever =>
    refine .resubmitted hthrough m (List.mem_append_right _ List.mem_cons_self) hown
      (forall_mem_snoc (fun m hm hq => absurd hq (hnever m hm)) fun _ => rfl) ?_
      (forall_mem_snoc (fun m hm _ _ _ => hpast m hm) fun _ _ _ => Nat.le_refl _)
      (hupheld.snoc m fun _ he => hc ▸ he)
    rw [retries_snoc_of_own h (Moment.isOf_iff.mpr ⟨.none, rfl⟩), hnone, List.nil_append]
  | spared ht | resubmitted ht => cases hp.symm.trans (ht.2 r hr rfl)

theorem step_live (hst : Stand h w r.id) (hw : Reachable config w) (hs : w.step l = some v)
    (hr : r ∈ w.runs) (hpoll : Poll h (w.chronicle r.id) r)
    (hpast : ∀ m ∈ h, m.source.now ≤ w.now) : Stand (h ++ [⟨w, l, v⟩]) v r.id := by
  have ho := owned hw
  have honly : ∀ q ∈ w.runs, q.id = r.id → q = r := fun q hq hid => ho.eq_of_id hq hr hid
  rcases (step_passage hs).of_live ho hr with ⟨hmem, hc⟩ |
    ⟨reply, events, p, rfl, hpace, hmem, hc⟩ | ⟨rfl, hphase, hgone, hc⟩
  · have hquiet : retries (h ++ [⟨w, l, v⟩]) r.id = retries h r.id ∧
        ¬ Moment.Resubmits ⟨w, l, v⟩ r.id := by
      by_cases hp : r.phase = .requeueing
      · exact retries_wait hw hs h hr hmem hp
      · exact retries_stay hw hs h fun q hq hid => honly q hq hid ▸ hp
    by_cases hp : r.phase = .exiting
    · exact hst.settled (.of_live hw hr hp) (.of_live (hw.step hs) hmem hp) hquiet.1 hquiet.2
        fun _ => by rw [hc]
    · cases hst with
      | underway _ hnone hnever =>
        exact .underway (fun _ => ⟨r, hmem, rfl, hp⟩) (hquiet.1.trans hnone)
          (forall_mem_snoc hnever hquiet.2)
      | spared ht | resubmitted ht => exact absurd (ht.2 r hr rfl) hp
  · cases hpace with
    | requeue hp => exact hst.requeue hw hr hs hp hpoll hpast (hc.trans (List.append_nil _))
    | stride hstride =>
      have hearly := hstride.early
      obtain ⟨hn, hq⟩ := retries_stay hw hs h fun q hq hid hp => by
        rw [honly q hq hid] at hp
        rw [hp] at hearly
        cases hearly
      cases hst with
      | underway _ hnone hnever =>
        by_cases hp : p = .exiting
        · refine .spared (Through.of_live (r := { r with phase := p }) (hw.step hs) hmem hp)
            (hn.trans hnone) (forall_mem_snoc hnever hq) ?_
          rw [hc]
          exact unvoted_of_stride hpoll hstride hp
        · exact .underway (fun _ => ⟨_, hmem, rfl, hp⟩) (hn.trans hnone)
            (forall_mem_snoc hnever hq)
      | spared ht | resubmitted ht =>
        rw [ht.2 r hr rfl] at hearly
        cases hearly
  · obtain ⟨hn, hq⟩ := retries_stay hw hs h fun q hq hid hp => by
      rw [honly q hq hid, hphase] at hp
      cases hp
    have hle := (step_roll ho hs).lastRun_le
    refine hst.settled (.of_live hw hr hphase)
      (.of_gone (Nat.le_trans (ho.run_le r hr) hle) hgone) hn hq fun name => ?_
    rw [hc]
    simp

theorem step_gone (hst : Stand h w n) (hw : Reachable config w) (hs : w.step l = some v)
    (hgone : ∀ q ∈ w.runs, q.id ≠ n) : Stand (h ++ [⟨w, l, v⟩]) v n := by
  have ho := owned hw
  obtain ⟨hn, hq⟩ := retries_stay hw hs h fun q hq hid => absurd hid (hgone q hq)
  obtain ⟨hc, hnext⟩ := Fate.absent hgone (step_passage hs)
  by_cases hle : n ≤ w.lastRun
  · have hgone' : ∀ q ∈ v.runs, q.id ≠ n := hnext.resolve_right fun hnew => by omega
    exact hst.settled (.of_gone hle hgone)
      (.of_gone (Nat.le_trans hle (step_roll ho hs).lastRun_le) hgone') hn hq fun _ => by rw [hc]
  · cases hst with
    | spared ht | resubmitted ht => exact absurd ht.1 hle
    | underway _ hnone hnever =>
      refine .underway (fun hle' => ?_) (hn.trans hnone) (forall_mem_snoc hnever hq)
      rcases hnext with hgone' | ⟨_, r, hr, hid, hf⟩
      · exfalso
        cases step_begins ho hs with
        | none _ hlast => omega
        | one view r _ hid _ hlast hruns =>
          refine hgone' r ?_ (by omega)
          rw [hruns]
          exact List.mem_append_right _ List.mem_cons_self
      · refine ⟨r, hr, hid, ?_⟩
        cases hf with
        | refused _ _ _ hp | ready _ hp => exact hp ▸ nofun

theorem step (hst : Stand h w n) (hw : Reachable config w) (hs : w.step l = some v)
    (hf : Fate h w n) (hpast : ∀ m ∈ h, m.source.now ≤ w.now) :
    Stand (h ++ [⟨w, l, v⟩]) v n := by
  cases hf with
  | unborn hgone | ended _ _ _ _ _ _ hgone => exact hst.step_gone hw hs hgone
  | live first r hfresh hr hid hwalk =>
    subst hid
    exact hst.step_live hw hs hr (hwalk.poll hfresh) hpast

end Stand

/-- The clock only goes on. -/
theorem now_le_of_step (hw : Reachable config w) (hs : w.step l = some v) : w.now ≤ v.now :=
  (vigil_move hw hs).now_le

/-- Numbers count from one. -/
theorem stand_of_steps {ls : List Label} (hs : (create config 0).steps ls = some w) (hpos : 0 < n) :
    Stand ((create config 0).history ls) w n := by
  have hall : (∀ m ∈ (create config 0).history ls, m.source.now ≤ w.now) ∧
      Fate ((create config 0).history ls) w n ∧ Stand ((create config 0).history ls) w n := by
    refine history_induction (P := fun h w => (∀ m ∈ h, m.source.now ≤ w.now) ∧
      Fate h w n ∧ Stand h w n) ?_ ?_ hs
    · refine ⟨List.forall_mem_nil _,
        .unborn (List.forall_mem_nil _) rfl fun _ => List.forall_mem_nil _,
        .underway (fun hle => absurd hle (Nat.not_le.mpr hpos)) rfl (List.forall_mem_nil _)⟩
    · rintro h u l v hu ⟨hpast, hf, hst⟩ hl
      have hle := now_le_of_step hu hl
      exact ⟨forall_mem_snoc (fun m hm => Nat.le_trans (hpast m hm) hle) hle, hf.step hu hl,
        hst.step hu hl hf hpast⟩
  exact hall.2.2

/-! ## The job that is put back -/

theorem reachable_of_mem_history {ls : List Label} {m : Moment}
    (hm : m ∈ (create config 0).history ls) :
    Reachable config m.source ∧ m.source.step m.label = some m.target := by
  obtain ⟨ms, _, hs, hstep⟩ := prefix_of_mem_history hm
  exact ⟨⟨ms, hs⟩, hstep⟩

theorem requested_of_resubmits {ls : List Label} {m : Moment}
    (hm : m ∈ (create config 0).history ls) (hq : m.Resubmits n) :
    ∃ r ∈ m.source.runs, r.id = n ∧
      m.requested = if m.source.interrupted then [] else [m.source.retry r] := by
  obtain ⟨hw, hs⟩ := reachable_of_mem_history hm
  obtain ⟨w, l, v⟩ := m
  obtain ⟨r, hr, rfl, hp, hl⟩ := hq
  have hl : l = .advance r.id .none := hl
  subst hl
  obtain ⟨q, hmem, hid, hrun⟩ := advance_of_step hs
  obtain rfl := (owned hw).eq_of_id hmem hr hid
  refine ⟨q, hr, rfl, ?_⟩
  rcases requested_advance hw hr hrun with ⟨_, _, _, hreq⟩ | ⟨hne, _⟩
  · exact hreq
  · exact absurd hp hne

theorem Lived.pos {ls : List Label} (hs : (create config 0).steps ls = some w)
    (hr : Lived ((create config 0).history ls) w r) : 0 < r.id := by
  have hnumber : ∀ u, Reachable config u → r ∈ u.runs → 0 < r.id := by
    intro u hu hmem
    have hin : r.id ∈ u.begun.map Beginning.run :=
      List.mem_map.mpr ⟨_, begun_of_live hu hmem, rfl⟩
    rw [begun_numbered hu, List.mem_range'_1] at hin
    exact hin.1
  rcases hr with hr | ⟨m, hm, hr⟩
  · exact hnumber w ⟨ls, hs⟩ hr
  · exact hnumber m.source (reachable_of_mem_history hm).1 hr

/-- Whoever has the number of the run is the run. -/
theorem Lived.job_eq {ls : List Label} (hs : (create config 0).steps ls = some w)
    (hr : Lived ((create config 0).history ls) w r) {m : Moment}
    (hm : m ∈ (create config 0).history ls) {q : Run} (hq : q ∈ m.source.runs) (hid : q.id = r.id) :
    q.job = r.job := by
  have hjob : ∀ first : Run, Seen ((create config 0).history ls) r.id first →
      (∀ q' ∈ w.runs, q'.id = r.id → q'.Same first) → q.job = r.job := by
    intro first hseen hlive
    obtain ⟨p, rfl⟩ := hseen m hm q hq hid
    obtain ⟨p', rfl⟩ := hr.same hseen hlive
    rfl
  cases fate_of_steps hs r.id with
  | unborn hgone _ hseen => exact hjob r (hseen r) fun q' hq' hid' => absurd hid' (hgone q' hq')
  | live first r' hf hr' hid' hw hseen =>
    refine hjob first hseen fun q' hq' hid'' => ?_
    exact (owned ⟨ls, hs⟩).eq_of_id hq' hr' (hid''.trans hid'.symm) ▸ hw.same
  | ended first _ _ _ _ _ hgone _ _ _ hseen =>
    exact hjob first hseen fun q' hq' hid' => absurd hid' (hgone q' hq')

/-- The failure of the run was reported, and one of those who were registered on the lane of its
job at that moment voted for a retry. -/
def Backed (h : List Moment) (w : Worker) (r : Run) : Prop :=
  ∃ m ∈ h, (∃ f, m.Asks r.id f (m.source.listeners.on r.job.lane).members) ∧
    ∃ name ∈ (m.source.listeners.on r.job.lane).members, .voted r.id name true ∈ w.chronicle r.id

theorem backed_iff_upheld {ls : List Label} (hs : (create config 0).steps ls = some w)
    (hr : Lived ((create config 0).history ls) w r) :
    Backed ((create config 0).history ls) w r ↔ Upheld ((create config 0).history ls) w r.id := by
  constructor
  · rintro ⟨m, hm, ⟨f, ha⟩, name, hname, hvote⟩
    exact ⟨f, _, m, hm, ha, name, hname, hvote⟩
  · rintro ⟨f, voters, m, hm, ⟨q, hq, hid, hp, hl, hh, rfl⟩, name, hname, hvote⟩
    have hjob := hr.job_eq hs hm hq hid
    rw [audience, hjob] at hname
    exact ⟨m, hm, ⟨f, q, hq, hid, hp, hl, hh, by rw [audience, hjob]⟩, name, hname, hvote⟩

/-- The posting of a job whose run has failed: it is due no earlier than the retry delay after the
failure, or ten years after it if the clock cannot count as far as the delay goes. -/
structure PutsBack (config : Config) (h : List Moment) (r : Run) (p : Posting) : Prop where
  message : p.message = .request r.job
  delay : p.delay = config.retryDelay
  after : ∀ m ∈ h, ∀ f voters, m.Asks r.id f voters →
    (p.OnClock → m.source.now + config.retryDelay.nanos ≤ p.due) ∧
      (¬ p.OnClock → m.source.now + Duration.farFuture.nanos ≤ p.due)

theorem putsBack_retry {ls : List Label} (hs : (create config 0).steps ls = some w)
    (hr : Lived ((create config 0).history ls) w r) {m : Moment}
    (hm : m ∈ (create config 0).history ls) {q : Run} (hq : q ∈ m.source.runs) (hid : q.id = r.id)
    (hafter : ∀ m' ∈ (create config 0).history ls, ∀ f voters, m'.Asks r.id f voters →
      m'.source.now ≤ m.source.now) :
    PutsBack config ((create config 0).history ls) r (m.source.retry q) := by
  have hconfig := config_eq (reachable_of_mem_history hm).1
  have hdelay : (m.source.retry q).delay = config.retryDelay :=
    congrArg Config.retryDelay hconfig
  refine ⟨congrArg Message.request (hr.job_eq hs hm hq hid), hdelay, fun m' hm' f voters ha => ?_⟩
  have htime : m'.source.now ≤ (m.source.retry q).time := hafter m' hm' f voters ha
  constructor
  · intro hon
    rw [Posting.due_eq hon, ← hdelay]
    exact Nat.add_le_add_right htime _
  · intro hoff
    rw [Posting.due_of_not_onClock hoff]
    exact Nat.add_le_add_right htime _

/-- A run puts its job back once at most, and only if a listener of its lane voted for it. When the
run is through it has done so, unless the worker was shut down before it came to it. -/
theorem retries_of_lived {ls : List Label} (hs : (create config 0).steps ls = some w)
    (hr : Lived ((create config 0).history ls) w r) :
    (retries ((create config 0).history ls) r.id = [] ∨
      ∃ p, retries ((create config 0).history ls) r.id = [p] ∧
        PutsBack config ((create config 0).history ls) r p ∧
        Backed ((create config 0).history ls) w r) ∧
    (w.Through r.id → (retries ((create config 0).history ls) r.id = [] ↔
      ¬ (Backed ((create config 0).history ls) w r ∧
        ∀ m ∈ (create config 0).history ls, m.Resubmits r.id → m.source.interrupted = false))) := by
  rw [backed_iff_upheld hs hr]
  cases stand_of_steps hs (hr.pos hs) with
  | underway hlive hn =>
    refine ⟨.inl hn, fun ht => ?_⟩
    obtain ⟨q, hq, hid, hp⟩ := hlive ht.1
    exact absurd (ht.2 q hq hid) hp
  | spared _ hn _ hv =>
    refine ⟨.inl hn, fun _ => ⟨fun _ hboth => ?_, fun _ => hn⟩⟩
    obtain ⟨⟨_, _, _, _, _, name, _, hvote⟩, _⟩ := hboth
    exact hv name hvote
  | resubmitted _ m hm hq honly hn hafter hv =>
    obtain ⟨q, hmem, hid, hreq⟩ := requested_of_resubmits hm hq
    cases hi : m.source.interrupted with
    | true =>
      rw [hi, if_pos rfl] at hreq
      refine ⟨.inl (hn.trans hreq), fun _ => ⟨fun _ hboth => ?_, fun _ => hn.trans hreq⟩⟩
      cases hi.symm.trans (hboth.2 m hm hq)
    | false =>
      rw [hi, if_neg Bool.false_ne_true] at hreq
      refine ⟨.inr ⟨_, hn.trans hreq, putsBack_retry hs hr hm hmem hid hafter, hv⟩,
        fun _ => ⟨fun hnone => ?_, fun hnot => ?_⟩⟩
      · rw [hn, hreq] at hnone
        cases hnone
      · exact absurd ⟨hv, fun m' hm' hq' => honly m' hm' hq' ▸ hi⟩ hnot

end Outbox.Worker
