import Outbox.Proofs.Idle.Timer

/-! # Marked idle

A mark sets the idle flag, and the next job that is accepted takes it back. Work that comes to a
marked worker is signalled once; a stop is signalled by a loop at rest that finds the flag still
set. Main statement: `signals_follow_marks`. -/
namespace Outbox
set_option autoImplicit false

namespace Vigil
variable {c d : Vigil} {n : Nat}

theorem Announced.of_stopIfIdle (h : c.Announced d)
    (hc : c.signals.count .stopIfIdle < d.signals.count .stopIfIdle) : c.idle = true := by
  cases h with
  | nothing h => exact absurd hc (h ▸ Nat.lt_irrefl _)
  | work hi | stop _ _ hi => exact hi
  | idle e rest hp => cases eq_of_count_lt (s := .fullyIdle) (.inr (if_pos hp)) hc

theorem Announced.of_startKeepAlive (h : c.Announced d)
    (hc : c.signals.count .startKeepAlive < d.signals.count .startKeepAlive) : d = c.accept := by
  cases h with
  | nothing h => exact absurd hc (h ▸ Nat.lt_irrefl _)
  | work => rfl
  | idle e rest hp => cases eq_of_count_lt (s := .fullyIdle) (.inr (if_pos hp)) hc
  | stop e ha hi =>
    cases eq_of_count_lt (s := .stopIfIdle)
      (.inr (if_pos (Bool.and_eq_true_iff.mpr ⟨ha, hi⟩))) hc

/-- The flag changes with a mark or an acceptance only. -/
theorem Move.flag (h : c.Move d) :
    d = c.accept ∨ (d.accepted = c.accepted ∧ (d.idle = c.idle ∨ d.marks = c.marks + 1)) := by
  cases h with
  | accept => exact .inl rfl
  | mark => exact .inr ⟨rfl, .inr rfl⟩
  | round _ _ hd =>
    refine .inr ?_
    cases hd with
    | obey k => cases k.control <;> exact ⟨rfl, .inl rfl⟩
    | _ => exact ⟨rfl, .inl rfl⟩
  | _ => exact .inr ⟨rfl, .inl rfl⟩

/-! ## A stop that is owed -/

/-- Since `n` stops were signalled the next one is on its way, unless it was signalled or work has
come. -/
structure Stopping (n : Nat) (c : Vigil) : Prop where
  counted : n ≤ c.signals.count .stopIfIdle
  owed : c.signals.count .stopIfIdle = n → c.idle = true →
    c.stopArmed = true ∨ ∃ k ∈ c.controls, k.control = .stop

/-- A loop that quits or does not run signals nothing more. -/
def Owes (n : Nat) (c : Vigil) : Prop := c.stage = .running → c.asked = false → c.Stopping n

namespace Stopping

/-- What is told on top takes no stop back. -/
theorem tell (h : c.Stopping n) (ks : List Instruction) (keepAlive : KeepAlive) :
    Stopping n { c with keepAlive, controls := c.controls ++ ks } := by
  refine ⟨h.counted, fun hn hi => (h.owed hn hi).imp_right ?_⟩
  rintro ⟨k, hk, hstop⟩
  exact ⟨k, List.mem_append_left _ hk, hstop⟩

theorem mark (hin : c.installed = true) (hn : n ≤ c.signals.count .stopIfIdle) :
    c.mark.Stopping n := by
  have hwords : c.words .stop = [⟨c.now, .stop⟩] := if_pos hin
  refine ⟨hn, fun _ _ => .inr ⟨⟨c.now, .stop⟩, List.mem_append_right _ ?_, rfl⟩⟩
  rw [hwords]
  exact List.mem_singleton_self _

theorem obey (h : c.Stopping n) {k : Instruction} {rest : List Instruction}
    (hk : c.controls = k :: rest) : (c.obey rest k.control).Stopping n := by
  have howed := h.owed
  rw [hk] at howed
  obtain ⟨due, control⟩ := k
  cases control with
  | stop => exact ⟨h.counted, fun _ _ => .inl rfl⟩
  | arm | disarm =>
    refine ⟨h.counted, fun hn hi => (howed hn hi).imp_right ?_⟩
    rintro ⟨j, hj, hstop⟩
    rcases List.mem_cons.mp hj with rfl | hj
    · cases hstop
    · exact ⟨j, hj, hstop⟩

theorem ring (h : c.Stopping n) (e : TimerQueue.Entry Message)
    (rest : List (TimerQueue.Entry Message)) : (c.ring e rest).Stopping n := by
  have hsame : (c.ring e rest).signals.count .stopIfIdle = c.signals.count .stopIfIdle :=
    count_of_ne (by decide) _ _
  exact ⟨hsame ▸ h.counted, fun hn => h.owed (hsame.symm.trans hn)⟩

/-- At rest nothing is on its way any more, so the stop is signalled or the flag is down. -/
theorem rest (h : c.Stopping n) (hk : c.controls = []) (e : TimerQueue.Entry Message) :
    (c.rest e).Stopping n := by
  have hsignals : (c.rest e).signals =
      if c.stopArmed && c.idle then .stopIfIdle :: c.signals else c.signals := rfl
  cases hstop : c.stopArmed && c.idle with
  | true =>
    rw [hstop, if_pos rfl] at hsignals
    refine ⟨?_, fun hn => ?_⟩
    · rw [hsignals, List.count_cons_self]
      exact Nat.le_succ_of_le h.counted
    · rw [hsignals, List.count_cons_self] at hn
      exact absurd h.counted (hn ▸ Nat.not_succ_le_self _)
  | false =>
    rw [hstop, if_neg Bool.false_ne_true] at hsignals
    refine ⟨hsignals ▸ h.counted, fun hn hi => ?_⟩
    rw [hsignals] at hn
    have hi : c.idle = true := hi
    rcases h.owed hn hi with ha | ⟨k, hmem, _⟩
    · rw [ha, hi] at hstop
      cases hstop
    · rw [hk] at hmem
      cases hmem

theorem round (h : c.Stopping n) (hd : c.Round d) (hs : d.stage = .running) : d.Stopping n := by
  cases hd with
  | close => cases hs
  | serve => exact { h with }
  | obey k rest _ hk => exact h.obey hk
  | ring e rest => exact h.ring e rest
  | rest e _ hk => exact h.rest hk e
  | block => exact h

end Stopping

theorem Owes.move (hc : c.Kept) (hn : c.stage ≠ .preparing) (h : c.Owes n) (hm : c.Move d) :
    d.Owes n := by
  intro hs hq
  cases hm with
  | still => exact h hs hq
  | wait | push | hand | leave => exact { h hs hq with }
  | hold | launch => exact { (h hs hq).tell (c.words .disarm) c.keepAlive.hold with }
  | release | free => exact { (h hs hq).tell _ c.keepAlive.release with }
  | launchNone =>
    exact { ((h hs hq).tell (c.words .disarm) c.keepAlive.hold).tell _ c.hold.keepAlive.release with }
  | mark => exact .mark (hc.installed_of_running hs hq) (h hs hq).counted
  | accept =>
    have hsame : c.accept.signals.count .stopIfIdle = c.signals.count .stopIfIdle :=
      count_of_ne (by decide) _ _
    exact ⟨hsame ▸ (h hs hq).counted, nofun⟩
  | silence =>
    cases hq.symm.trans (hc.asked_silence hs)
  | renew s _ _ hto => exact absurd hs hto
  | climb s _ _ hto => exact absurd hs hto
  | prepare hprep => exact absurd hprep hn
  | round hrun _ hround =>
    cases hasked : c.asked with
    | false => exact (h hrun hasked).round hround hs
    | true =>
      obtain rfl := hround.of_asked hasked
      cases hs

end Vigil

namespace Worker
variable {config : Config} {w v x y z : Worker} {ls ms : List Label} {n : Nat}

theorem Settled.not_preparing (h : w.Settled) : w.loop.stage ≠ .preparing := by
  rcases h with hrun | ho
  · exact fun hp => Stage.noConfusion (hrun.symm.trans hp)
  · exact ho.stage_ne rfl

theorem settled_of_steps (h : Reachable config w) (hs : w.steps ls = some v) (hset : w.Settled) :
    v.Settled :=
  h.carry hs hset fun _ _ _ hr hu hl => (hu.step hr hl).2

theorem owes_of_steps (h : Reachable config w) (hs : w.steps ls = some v) (hset : w.Settled)
    (ho : w.vigil.Owes n) : v.vigil.Owes n := by
  refine (h.carry (P := fun u => u.Settled ∧ u.vigil.Owes n) hs ⟨hset, ho⟩ ?_).2
  rintro u l x hr ⟨hset, ho⟩ hl
  exact ⟨(hset.step hr hl).2, ho.move (vigil_kept hr) hset.not_preparing (vigil_move hr hl)⟩

/-- The loop that comes to rest with the flag up has signalled a stop since any mark made after it
was prepared. -/
theorem stop_since_mark (h : Reachable config w) (hset : w.Settled)
    (hv : w.step .markIdle = some v) (hs : v.steps ls = some x) (hfree : x.loopFree = true)
    (hrest : x.resting = true) (hi : x.idle = true) :
    v.signals.count .stopIfIdle < x.signals.count .stopIfIdle := by
  have hr : Reachable config x := (h.step hv).steps hs
  have hmark : v.vigil = w.vigil.mark := by
    obtain ⟨_, rfl⟩ := markIdle_of_step hv
    exact (shows_markIdle (watched_kept h).1).vigil
  have howes : v.vigil.Owes (v.signals.count .stopIfIdle) := by
    intro hrun hq
    have hsignals : w.vigil.mark.signals = v.signals := congrArg Vigil.signals hmark.symm
    rw [hmark] at hrun hq ⊢
    exact .mark ((vigil_kept h).installed_of_running hrun hq) (hsignals ▸ Nat.le_refl _)
  obtain ⟨hrunning, _⟩ := vigil_free hfree
  obtain ⟨hasked, hnone, hclean⟩ := told_nothing_at_rest hr hrest
  have hstopping := owes_of_steps (h.step hv) hs (hset.step h hv).2 howes hrunning hasked
  refine Nat.lt_of_le_of_ne hstopping.counted fun hn => ?_
  rcases hstopping.owed hn.symm hi with ha | ⟨k, hk, _⟩
  · cases hclean.symm.trans ((vigil_kept hr).stopping ha)
  · rw [hnone] at hk
    cases hk

/-- The job was accepted, and the work is signalled exactly if the worker was marked idle since the
job before. -/
def Welcomes (w v : Worker) : Prop :=
  v.accepted = w.accepted + 1 ∧ v.idle = false ∧
    v.signals = if w.marked then .startKeepAlive :: w.signals else w.signals

theorem welcomes_of_vigil (h : Reachable config w) (hv : v.vigil = w.vigil.accept) :
    w.Welcomes v := by
  have hflag : w.idle = w.marked := (vigil_kept h).marked
  refine ⟨congrArg Vigil.accepted hv, congrArg Vigil.idle hv, ?_⟩
  rw [← hflag]
  exact congrArg Vigil.signals hv

theorem look_outcome (h : Reachable config w) {s : Submission} {r : Except Refusal Unit}
    (hl : w.look s = (some r, v)) :
    match r with
    | .ok () => w.Welcomes v
    | .error _ => v.accepted = w.accepted ∧ v.idle = w.idle ∧ v.signals = w.signals := by
  cases look_cases (watched_kept h).1 s with
  | accepted u he hu =>
    obtain ⟨hr, rfl⟩ := Prod.mk.inj (he.symm.trans hl)
    cases hr
    exact welcomes_of_vigil h hu.vigil
  | refused r he =>
    obtain ⟨hr, rfl⟩ := Prod.mk.inj (he.symm.trans hl)
    cases hr
    exact ⟨rfl, rfl, rfl⟩
  | waiting s' he =>
    obtain ⟨hr, _⟩ := Prod.mk.inj (he.symm.trans hl)
    cases hr

theorem step_outcome (h : Reachable config w) {l : Label} (hs : w.step l = some v) :
    w.Welcomes v ∨ (v.accepted = w.accepted ∧ ¬ Gives .startKeepAlive w v ∧
      (v.idle = w.idle ∨ v.marks = w.marks + 1)) := by
  have hm := vigil_move h hs
  rcases hm.flag with haccept | ⟨hsame, hflag⟩
  · exact .inl (welcomes_of_vigil h haccept)
  · refine .inr ⟨hsame, fun hgives => ?_, hflag⟩
    have haccept : v.vigil.accepted = w.vigil.accepted + 1 :=
      congrArg Vigil.accepted (hm.announced.of_startKeepAlive hgives)
    have hsame : v.vigil.accepted = w.vigil.accepted := hsame
    omega

/-- A submission that is accepted signals work once if the worker was marked idle since the one
before, and nothing else signals work; a submission that is refused changes nothing. A stop is
signalled only while the worker is marked idle, and at most once for a mark. A loop at rest with the
flag up has signalled a stop since every mark made after it was prepared. -/
theorem signals_follow_marks (h : Reachable config w) :
    (∀ {s v}, w.look s = (some (.ok ()), v) → w.Welcomes v) ∧
    (∀ {s r v}, w.look s = (some (.error r), v) →
      v.accepted = w.accepted ∧ v.idle = w.idle ∧ v.signals = w.signals) ∧
    (∀ {l v}, w.step l = some v →
      (w.Welcomes v ∨ (v.accepted = w.accepted ∧ ¬ Gives .startKeepAlive w v ∧
        (v.idle = w.idle ∨ v.marks = w.marks + 1))) ∧
      (Gives .stopIfIdle w v → w.marked = true)) ∧
    w.signals.count .stopIfIdle ≤ w.marks ∧
    (∀ {pending ms ls v x y z}, w.step (.prepare pending) = some v → v.steps ms = some x →
      x.step .markIdle = some y → y.steps ls = some z → z.loopFree = true → z.resting = true →
      z.idle = true → y.signals.count .stopIfIdle < z.signals.count .stopIfIdle) := by
  have hkept := vigil_kept h
  refine ⟨look_outcome h, look_outcome h, fun hs => ⟨step_outcome h hs, fun hgives => ?_⟩, ?_, ?_⟩
  · have hflag : w.idle = w.marked := hkept.marked
    exact hflag ▸ (vigil_move h hs).announced.of_stopIfIdle hgives
  · have hstops : w.signals.count .stopIfIdle + w.loop.controls.countP (·.control = .stop) +
        w.loop.stopArmed.toNat ≤ w.marks := hkept.stops
    omega
  · intro pending ms ls v x y z hv hx hy hz hfree hrest hi
    have hset : v.Settled := by
      obtain ⟨_, rfl⟩ := atStage_eq_some hv
      exact .inl rfl
    have hr := h.step hv
    exact stop_since_mark (hr.steps hx) (settled_of_steps hr hx hset) hy hz hfree hrest hi

/-- The worker is marked idle and asks for a stop at rest; then it takes a job after all. -/
theorem stop_then_work :
    ∃ w v y z u, (create {} 0).steps opening.dropLast = some w ∧ w.step (.prepare []) = some v ∧
      v.step .markIdle = some y ∧ y.steps [.iterate, .iterate] = some z ∧
      z.look { job := blankJob 1, delay := .zero } = (some (.ok ()), u) ∧
      y.signals.count .stopIfIdle < z.signals.count .stopIfIdle ∧ z.marked = true ∧
      u.signals = .startKeepAlive :: z.signals := by
  have h : ∃ w v y z u, (create {} 0).steps opening.dropLast = some w ∧
      w.step (.prepare []) = some v ∧ v.step .markIdle = some y ∧
      y.steps [.iterate, .iterate] = some z ∧
      z.look { job := blankJob 1, delay := .zero } = (some (.ok ()), u) ∧
      z.loopFree = true ∧ z.resting = true ∧ z.idle = true ∧ z.marked = true :=
    ⟨_, _, _, _, _, rfl, rfl, rfl, rfl, rfl, rfl, rfl, rfl, rfl⟩
  obtain ⟨w, v, y, z, u, hw, hv, hy, hz, hu, hfree, hrest, hi, hmarked⟩ := h
  have hr : Reachable {} w := ⟨opening.dropLast, hw⟩
  have hx : v.steps [] = some v := rfl
  obtain ⟨_, _, _, _, hstop⟩ := signals_follow_marks hr
  obtain ⟨hwelcome, _⟩ := signals_follow_marks (((hr.step hv).step hy).steps hz)
  refine ⟨w, v, y, z, u, hw, hv, hy, hz, hu, hstop hv hx hy hz hfree hrest hi, hmarked, ?_⟩
  rw [(hwelcome hu).2.2, hmarked]
  rfl

end Worker

end Outbox
