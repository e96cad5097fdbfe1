import Outbox.Proofs.Footprint
import Outbox.Proofs.InFlight.Ownership

/-! # The roll of listeners

The part of a worker that decides who is told of a run: the two registries, and of every live run
the listener that its job brings along and the one that it registered itself. `Move` says what a
step can do to it, and `step_roll` that every step does one of these things. `Sound` is what every
step keeps. -/
namespace Outbox
set_option autoImplicit false

/-- What a run has to do with the listeners. -/
structure Stint where
  run : Nat
  lane : Lane
  onLoop : Bool
  /-- The job's own listener. -/
  brings : Option ListenerName
  /-- The one that the run takes off when it ends. -/
  registered : Option ListenerName

namespace Stint

def Brings (s : Stint) (lane : Lane) (name : ListenerName) : Prop :=
  s.lane = lane ∧ s.brings = some name

def Registered (s : Stint) (lane : Lane) (name : ListenerName) : Prop :=
  s.lane = lane ∧ s.registered = some name

end Stint

def Run.stint (r : Run) : Stint where
  run := r.id
  lane := r.job.lane
  onLoop := r.kind.onLoop
  brings := r.job.listener
  registered := r.custom

/-- The call that a caller makes about the listener: whether it is to be on the lane or not. -/
def Label.call? (lane : Lane) (name : ListenerName) : Label → Option Bool
  | .addListener lane' name' => if lane' = lane ∧ name' = name then some true else none
  | .removeListener lane' name' => if lane' = lane ∧ name' = name then some false else none
  | _ => none

def Label.isCall : Label → Bool
  | .addListener _ _ | .removeListener _ _ => true
  | _ => false

theorem Label.call?_of_not_isCall {l : Label} (hl : l.isCall = false) (lane : Lane)
    (name : ListenerName) : l.call? lane name = none := by
  cases l with
  | addListener | removeListener => cases hl
  | _ => rfl

theorem Label.ne_of_call? {l : Label} {lane : Lane} {name : ListenerName}
    (hc : l.call? lane name = none) :
    l ≠ .addListener lane name ∧ l ≠ .removeListener lane name := by
  constructor <;> rintro rfl <;> simp [call?] at hc

namespace Listeners
variable (l : Listeners) (lane lane' : Lane) (name name' : ListenerName)

theorem mem_set {r : Registry ListenerName} : name ∈ ((l.set lane' r).on lane).members ↔
    if lane' = lane then name ∈ r.members else name ∈ (l.on lane).members := by
  by_cases h : lane' = lane
  · subst h
    rw [if_pos rfl, on_set_self]
  · rw [if_neg h, on_set_other l r (Ne.symm h)]

theorem mem_add : name ∈ ((l.add lane' name').2.on lane).members ↔
    (lane' = lane ∧ name' = name) ∨ name ∈ (l.on lane).members := by
  rw [add, mem_set]
  by_cases h : lane' = lane
  · subst h
    simp only [if_true, Registry.mem_add, true_and, eq_comm]
  · simp only [h, if_false, false_and, false_or]

theorem mem_remove : name ∈ ((l.remove lane' name').2.on lane).members ↔
    ¬ (lane' = lane ∧ name' = name) ∧ name ∈ (l.on lane).members := by
  rw [remove, mem_set]
  by_cases h : lane' = lane
  · subst h
    simp only [if_true, Registry.mem_remove, true_and, ne_eq, and_comm, eq_comm]
  · simp only [h, if_false, false_and, not_false_eq_true, true_and]

theorem mem_enlist (brings : Option ListenerName) :
    name ∈ ((l.enlist lane' brings).2.on lane).members ↔
      (lane' = lane ∧ brings = some name) ∨ name ∈ (l.on lane).members := by
  cases brings with
  | none => simp [enlist]
  | some name' =>
    by_cases hm : name' ∈ (l.on lane').members
    · simp only [enlist, if_pos hm, Option.some.injEq]
      constructor
      · exact Or.inr
      · rintro (⟨rfl, rfl⟩ | h)
        · exact hm
        · exact h
    · simp only [enlist, if_neg hm, Option.some.injEq, mem_add]

theorem mem_strike (registered : Option ListenerName) :
    name ∈ ((l.strike lane' registered).on lane).members ↔
      ¬ (lane' = lane ∧ registered = some name) ∧ name ∈ (l.on lane).members := by
  cases registered with
  | none => simp [strike]
  | some name' => rw [strike, mem_remove, Option.some.injEq]

/-- A run registers no listener but the one that its job brings, and only one that is not there. -/
theorem enlist_eq_some {brings : Option ListenerName} :
    (l.enlist lane brings).1 = some name ↔
      brings = some name ∧ name ∉ (l.on lane).members := by
  cases brings with
  | none => simp [enlist]
  | some name' =>
    by_cases hm : name' ∈ (l.on lane).members
    · simp only [enlist, if_pos hm, Option.some.injEq]
      constructor
      · intro hn
        cases hn
      · rintro ⟨rfl, hn⟩
        exact absurd hm hn
    · simp only [enlist, if_neg hm, Option.some.injEq]
      constructor
      · rintro rfl
        exact ⟨rfl, hm⟩
      · exact And.left

def Nodup (l : Listeners) : Prop := ∀ lane, (l.on lane).members.Nodup

variable {l lane name}

theorem Nodup.set (h : l.Nodup) {r : Registry ListenerName} (hr : r.members.Nodup) :
    (l.set lane r).Nodup := by
  intro other
  by_cases ho : other = lane
  · subst ho
    rw [on_set_self]
    exact hr
  · rw [on_set_other l r ho]
    exact h other

theorem Nodup.add (h : l.Nodup) : (l.add lane name).2.Nodup :=
  h.set (Registry.nodup_add _ _ (h lane))

theorem Nodup.remove (h : l.Nodup) : (l.remove lane name).2.Nodup :=
  h.set (Registry.nodup_remove _ _ (h lane))

theorem Nodup.enlist (h : l.Nodup) (brings : Option ListenerName) :
    (l.enlist lane brings).2.Nodup := by
  unfold Listeners.enlist
  split
  · exact h
  · split
    · exact h
    · exact h.add

theorem Nodup.strike (h : l.Nodup) (registered : Option ListenerName) :
    (l.strike lane registered).Nodup := by
  cases registered with
  | none => exact h
  | some name => exact h.remove

end Listeners

structure Roll where
  listeners : Listeners
  stints : List Stint
  lastRun : Nat

namespace Roll

def enter (b : Roll) (s : Stint) : Roll where
  listeners := (b.listeners.enlist s.lane s.brings).2
  stints := b.stints ++ [s]
  lastRun := s.run

/-- A run ends; `rest` are the others. -/
def leave (b : Roll) (s : Stint) (rest : List Stint) : Roll :=
  { b with listeners := b.listeners.strike s.lane s.registered, stints := rest }

inductive Move (b : Roll) : Label → Roll → Prop
  | stay {l : Label} (hl : l.isCall = false) : Move b l b
  | add (lane : Lane) (name : ListenerName) :
      Move b (.addListener lane name) { b with listeners := (b.listeners.add lane name).2 }
  | remove (lane : Lane) (name : ListenerName) :
      Move b (.removeListener lane name) { b with listeners := (b.listeners.remove lane name).2 }
  | enter (view : Worker.View) (s : Stint) (hrun : s.run = b.lastRun + 1)
      (hreg : s.registered = (b.listeners.enlist s.lane s.brings).1)
      (hloop : s.lane = .inline → s.onLoop = true) (halone : ∀ q ∈ b.stints, q.onLoop = false) :
      Move b (.dispatch view) (b.enter s)
  | leave (s : Stint) (before after : List Stint) (hs : b.stints = before ++ s :: after) :
      Move b (.advance s.run .none) (b.leave s (before ++ after))

theorem Move.enlisted {b : Roll} (view : Worker.View) {lane : Lane} (onLoop : Bool)
    {brings custom : Option ListenerName} {listeners : Listeners}
    (he : b.listeners.enlist lane brings = (custom, listeners))
    (hloop : lane = .inline → onLoop = true) (halone : ∀ q ∈ b.stints, q.onLoop = false) :
    b.Move (.dispatch view) ⟨listeners,
      b.stints ++ [⟨b.lastRun + 1, lane, onLoop, brings, custom⟩], b.lastRun + 1⟩ := by
  have hm := Move.enter view ⟨b.lastRun + 1, lane, onLoop, brings, custom⟩ rfl
    (congrArg Prod.fst he).symm hloop halone
  rw [Roll.enter, he] at hm
  exact hm

/-! ## What every move keeps -/

structure Sound (b : Roll) : Prop where
  listeners : b.listeners.Nodup
  run_le : ∀ s ∈ b.stints, s.run ≤ b.lastRun
  nodup : (b.stints.map Stint.run).Nodup
  /-- A run registers only what its job brings. -/
  brought : ∀ s ∈ b.stints, ∀ lane name, s.Registered lane name → s.Brings lane name
  housed : ∀ s ∈ b.stints, s.lane = .inline → s.onLoop = true
  alone : ∀ s ∈ b.stints, ∀ q ∈ b.stints, s.onLoop = true → q.onLoop = true → s = q

variable {b c : Roll} {l : Label}

theorem Sound.enter (h : b.Sound) {s : Stint} (hrun : s.run = b.lastRun + 1)
    (hreg : s.registered = (b.listeners.enlist s.lane s.brings).1)
    (hloop : s.lane = .inline → s.onLoop = true) (halone : ∀ q ∈ b.stints, q.onLoop = false) :
    (b.enter s).Sound where
  listeners := h.listeners.enlist s.brings
  run_le := by
    have hle : ∀ q ∈ b.stints, q.run ≤ s.run := fun q hq =>
      hrun ▸ Nat.le_succ_of_le (h.run_le q hq)
    exact List.forall_mem_append.mpr ⟨hle, List.forall_mem_singleton.mpr (Nat.le_refl _)⟩
  nodup := by
    change ((b.stints ++ [s]).map Stint.run).Nodup
    rw [List.map_append, List.nodup_append]
    refine ⟨h.nodup, List.nodup_singleton _, ?_⟩
    intro i hi j hj hij
    obtain ⟨q, hq, rfl⟩ := List.mem_map.mp hi
    have hle := h.run_le q hq
    have hj : j = s.run := List.mem_singleton.mp hj
    omega
  brought := by
    refine List.forall_mem_append.mpr ⟨h.brought, List.forall_mem_singleton.mpr ?_⟩
    rintro _ name ⟨rfl, hr⟩
    rw [hreg, Listeners.enlist_eq_some] at hr
    exact ⟨rfl, hr.1⟩
  housed := List.forall_mem_append.mpr ⟨h.housed, List.forall_mem_singleton.mpr hloop⟩
  alone := by
    have hnone : ∀ q ∈ b.stints, q.onLoop ≠ true := fun q hq => Bool.eq_false_iff.mp (halone q hq)
    intro q hq q' hq' hon hon'
    rcases List.mem_append.mp hq with hq | hq
    · exact absurd hon (hnone q hq)
    rcases List.mem_append.mp hq' with hq' | hq'
    · exact absurd hon' (hnone q' hq')
    rw [List.mem_singleton.mp hq, List.mem_singleton.mp hq']

theorem Sound.leave (h : b.Sound) {s : Stint} {before after : List Stint}
    (hs : b.stints = before ++ s :: after) : (b.leave s (before ++ after)).Sound := by
  have hsub : (before ++ after).Sublist b.stints := by
    rw [hs]
    exact List.Sublist.append_left (List.sublist_cons_self s after) before
  exact
    { listeners := h.listeners.strike s.registered
      run_le := fun q hq => h.run_le q (hsub.subset hq)
      nodup := h.nodup.sublist (hsub.map _)
      brought := fun q hq => h.brought q (hsub.subset hq)
      housed := fun q hq => h.housed q (hsub.subset hq)
      alone := fun q hq q' hq' => h.alone q (hsub.subset hq) q' (hsub.subset hq') }

theorem Sound.move (h : b.Sound) (hm : b.Move l c) : c.Sound := by
  cases hm with
  | stay => exact h
  | add lane name => exact { h with listeners := h.listeners.add }
  | remove lane name => exact { h with listeners := h.listeners.remove }
  | enter view s hrun hreg hloop halone => exact h.enter hrun hreg hloop halone
  | leave s before after hs => exact h.leave hs

theorem Sound.eq_of_run (h : b.Sound) {s q : Stint} (hs : s ∈ b.stints) (hq : q ∈ b.stints)
    (he : s.run = q.run) : s = q :=
  List.inj_on_of_nodup_map h.nodup hs hq he

/-- Beside a run on the inline lane there is no other. -/
theorem Sound.eq_of_inline (h : b.Sound) {s q : Stint} (hs : s ∈ b.stints) (hq : q ∈ b.stints)
    (hl : s.lane = .inline) (hl' : q.lane = .inline) : s = q :=
  h.alone s hs q hq (h.housed s hs hl) (h.housed q hq hl')

theorem Move.lastRun_le (hm : b.Move l c) : b.lastRun ≤ c.lastRun := by
  cases hm with
  | enter view s hrun => exact Nat.le_trans (Nat.le_succ _) (Nat.le_of_eq hrun.symm)
  | _ => exact Nat.le_refl _

end Roll

namespace Worker

/-- The live runs, first begun first. -/
def stints (w : Worker) : List Stint := w.runs.map Run.stint

def roll (w : Worker) : Roll := ⟨w.listeners, w.stints, w.lastRun⟩

variable {config : Config} {w v : Worker} {l : Label}

/-! ## What leaves the registries alone -/

section Frame
variable (w : Worker)

@[simp] theorem listeners_post (m : Message) (d : Duration) :
    (w.post m d).2.listeners = w.listeners := by
  rw [post_eq]

@[simp] theorem listeners_notify (m : Message) : (w.notify m).listeners = w.listeners := by
  rw [notify_eq]

theorem listeners_wake : w.wake.listeners = w.listeners := by
  unfold wake
  split <;> rfl

theorem listeners_accept (job : Job) (d : Duration) :
    (w.accept job d).2.listeners = w.listeners := by
  have hpost := listeners_post w (.request job) d
  unfold accept
  split
  · rename_i v hv
    rw [hv] at hpost
    exact (listeners_wake _).trans hpost
  · rename_i v hv
    rw [hv] at hpost
    exact hpost

theorem listeners_look (s : Submission) : (w.look s).2.listeners = w.listeners := by
  unfold look
  split
  · exact listeners_accept w s.job s.delay
  · rfl
  · rfl

theorem listeners_rotate : w.rotate.listeners = w.listeners := by
  obtain ⟨rotation, news, _, he⟩ := rotate_eq w
  rw [he]

theorem listeners_shutdown : w.shutdown.listeners = w.listeners := by
  cases hi : w.interrupted with
  | true => rw [shutdown_of_interrupted hi]
  | false =>
    rw [shutdown_eq hi]
    rfl

theorem listeners_prepare (pending : List Job) : (w.prepare pending).listeners = w.listeners := by
  obtain ⟨mailbox, _, he⟩ := prepare_eq w pending
  rw [he]

theorem listeners_handle (e : TimerQueue.Entry Message) :
    (w.handle e).listeners = w.listeners := by
  unfold handle
  dsimp only
  split
  case h_2 => split <;> rfl
  all_goals rfl

theorem listeners_setIdleTimer : w.setIdleTimer.listeners = w.listeners := by
  unfold setIdleTimer
  split
  · dsimp only
    split <;> rfl
  · rfl

theorem listeners_askForStop : w.askForStop.listeners = w.listeners := by
  unfold askForStop
  split
  · dsimp only
    split <;> rfl
  · rfl

theorem listeners_iterate : w.iterate.listeners = w.listeners := by
  unfold iterate
  dsimp only
  split
  · rfl
  split
  · exact listeners_handle _ _
  · split
    · exact (listeners_askForStop _).trans (listeners_setIdleTimer _)
    · rfl

theorem listeners_freed (r : Run) : (w.freed r).listeners = w.listeners := by
  unfold freed
  split
  · exact (release_frame _).2
  · rfl

theorem stints_setPhase (id : Nat) (p : Phase) : (w.setPhase id p).stints = w.stints := by
  rw [stints, setPhase, List.map_map]
  apply List.map_congr_left
  intro r _
  simp only [Function.comp_apply]
  split <;> rfl

theorem roll_setPhase (id : Nat) (p : Phase) : (w.setPhase id p).roll = w.roll :=
  congrArg (fun stints => ({ w.roll with stints } : Roll)) (stints_setPhase w id p)

variable {w}

theorem roll_eq (hl : v.listeners = w.listeners) (hr : v.runs = w.runs ∧ v.lastRun = w.lastRun) :
    v.roll = w.roll := by
  unfold roll stints
  rw [hl, hr.1, hr.2]

theorem roll_look (s : Submission) : (w.look s).2.roll = w.roll :=
  roll_eq (listeners_look w s)
    ⟨congrArg Ledger.runs (ledger_look w s), congrArg Ledger.lastRun (ledger_look w s)⟩

end Frame

theorem runs_of_step (hl : l.sparesRuns = true) (h : w.step l = some v) :
    v.runs = w.runs ∧ v.lastRun = w.lastRun := by
  have hm := step_move h
  generalize hg : v.ledger = g at hm
  have hv : v.runs = g.runs ∧ v.lastRun = g.lastRun := hg ▸ ⟨rfl, rfl⟩
  cases hm with
  | stay | reset | pick => exact hv
  | drop | refuse | proceed | progress | leave => cases hl

theorem listeners_of_step (hl : l.sparesRuns = true) (hc : l.isCall = false)
    (h : w.step l = some v) : v.listeners = w.listeners := by
  cases l with
  | dispatch | advance => cases hl
  | addListener | removeListener => cases hc
  | submit job delay =>
    obtain ⟨_, rfl⟩ := submit_of_step h
    exact listeners_look w _
  | lookAgain =>
    obtain ⟨s, _, rfl⟩ := lookAgain_of_step h
    exact listeners_look w s
  | hold =>
    cases h
    exact (hold_frame w).2
  | release =>
    cases h
    exact (release_frame w).2
  | markIdle =>
    obtain ⟨_, rfl⟩ := markIdle_of_step h
    exact listeners_notify _ _
  | childRespawning reason =>
    cases h
    exact listeners_rotate w
  | shutdown =>
    cases h
    exact listeners_shutdown w
  | start =>
    cases h
    unfold start
    split <;> rfl
  | join =>
    cases h
    unfold join
    split <;> rfl
  | tick d =>
    obtain ⟨_, rfl⟩ := tick_of_step h
    rfl
  | point =>
    obtain ⟨_, rfl⟩ := atStage_eq_some h
    unfold point
    split
    · exact listeners_rotate w
    · rfl
  | prepare pending =>
    obtain ⟨_, rfl⟩ := atStage_eq_some h
    exact listeners_prepare w pending
  | iterate =>
    obtain ⟨_, rfl⟩ := iterate_of_step h
    exact listeners_iterate w
  | enter | openLink | opened =>
    obtain ⟨_, rfl⟩ := atStage_eq_some h
    rfl
  | cancel handle =>
    obtain ⟨_, rfl⟩ := cancel_of_step h
    rfl
  | setPushId | childTerminated =>
    cases h
    rfl

/-! ## Dispatch -/

theorem roll_begin (w : Worker) {job : Job} {kind : RunKind} {claim : Option MessageId}
    {custom : Option ListenerName} {phase : Phase} :
    (w.begin job kind claim custom phase).roll =
      ⟨w.listeners, w.stints ++ [⟨w.lastRun + 1, job.lane, kind.onLoop, job.listener, custom⟩],
        w.lastRun + 1⟩ := by
  have hstints : (w.begin job kind claim custom phase).stints = w.stints ++ _ := List.map_append
  unfold roll
  rw [hstints]
  rfl

theorem roll_launch (w : Worker) {job : Job} {claim : Option MessageId}
    {custom : Option ListenerName} :
    (w.launch job claim custom true).roll =
      ⟨w.listeners, w.stints ++ [⟨w.lastRun + 1, job.lane, false, job.listener, custom⟩],
        w.lastRun + 1⟩ := by
  obtain ⟨handles, tickets, book, ticket, handle, hl⟩ := launch_spec w job claim custom
  have hruns : w.hold.stints = w.stints :=
    congrArg (fun g : Ledger => g.runs.map Run.stint) (ledger_hold w)
  have hlast : w.hold.lastRun = w.lastRun := congrArg Ledger.lastRun (ledger_hold w)
  rw [hl, roll_begin]
  simp only [RunKind.onLoop]
  change (⟨w.hold.listeners, w.hold.stints ++ _, _⟩ : Roll) = _
  rw [(hold_frame w).2, hruns]
  simp only [hlast]

theorem roll_dispatch {job : Job} {view : View} (halone : ∀ r ∈ w.runs, r.kind.onLoop = false)
    (h : Dispatched w job view v) : w.roll.Move (.dispatch view) v.roll := by
  have halone : ∀ q ∈ w.stints, q.onLoop = false := List.forall_mem_map.mpr halone
  cases h with
  | closed | duplicate => exact .stay rfl
  | refused p listeners custom _ _ he =>
    rw [roll_begin]
    exact .enlisted view true he (fun _ => rfl) halone
  | inline claim s listeners custom _ _ _ he =>
    rw [roll_begin]
    exact .enlisted view true he (fun _ => rfl) halone
  | detached claim s listeners custom _ _ hl he =>
    rw [roll_launch]
    exact .enlisted view false he (fun hi => nomatch hl.symm.trans hi) halone
  | unstarted =>
    have hledger := ledger_unstarted (w.admitting w.inFlight w.listeners) job
    have hsame : ((w.admitting w.inFlight w.listeners).unstarted job).roll = w.roll :=
      roll_eq (unstarted_listeners _ job)
        ⟨congrArg Ledger.runs hledger, congrArg Ledger.lastRun hledger⟩
    rw [hsame]
    exact .stay rfl

/-! ## Every step -/

theorem roll_exit (ho : w.ledger.Owned) {r : Run} (hr : r ∈ w.runs) :
    ∃ before after, w.stints = before ++ r.stint :: after ∧
      (w.exit r).roll = w.roll.leave r.stint (before ++ after) := by
  obtain ⟨a, b, hab, hrest⟩ := ho.split hr
  have hab : w.runs = a ++ r :: b := hab
  have hrest : w.runs.filter (·.id != r.id) = a ++ b := hrest
  have hruns : (w.freed r).runs = w.runs := congrArg Ledger.runs (ledger_freed w r)
  have hlast : (w.freed r).lastRun = w.lastRun := congrArg Ledger.lastRun (ledger_freed w r)
  refine ⟨a.map Run.stint, b.map Run.stint, ?_, ?_⟩
  · rw [stints, hab, List.map_append, List.map_cons]
  · rw [exit_eq, hruns, hrest, listeners_freed, ← List.map_append]
    change (⟨_, _, (w.freed r).lastRun⟩ : Roll) = _
    rw [hlast]
    rfl

theorem roll_advance (ho : w.ledger.Owned) {r : Run} (hr : r ∈ w.runs) {reply : Reply}
    (h : w.advanceRun? r reply = some v) : w.roll.Move (.advance r.id reply) v.roll := by
  cases advanceRun_spec h with
  | going reply succeeded failed requeued book events p =>
    rw [roll_setPhase, noted_eq]
    exact .stay rfl
  | requeued =>
    rw [requeue, roll_setPhase, roll_look]
    exact .stay rfl
  | ended =>
    obtain ⟨before, after, hs, he⟩ := roll_exit ho hr
    rw [he]
    exact .leave r.stint before after hs

theorem step_roll (ho : w.ledger.Owned) (h : w.step l = some v) : w.roll.Move l v.roll := by
  cases hl : l.sparesRuns with
  | true =>
    have hruns := runs_of_step hl h
    cases hc : l.isCall with
    | true =>
      cases l with
      | addListener lane name =>
        cases h
        exact .add lane name
      | removeListener lane name =>
        cases h
        exact .remove lane name
      | _ => cases hc
    | false =>
      rw [roll_eq (listeners_of_step hl hc h) hruns]
      exact .stay hc
  | false =>
    cases l with
    | dispatch view =>
      obtain ⟨job, hp, rfl⟩ := dispatch_of_step h
      have halone := ho.alone (Option.isSome_iff_exists.mpr ⟨job, hp⟩)
      exact roll_dispatch (w := w.withLoop { w.loop with picked := none }) halone
        (dispatch_spec _ job view)
    | advance id reply =>
      obtain ⟨r, hr, rfl, hrun⟩ := advance_of_step h
      exact roll_advance ho hr hrun
    | _ => cases hl

theorem roll_sound (h : Reachable config w) : w.roll.Sound := by
  refine h.induction (P := fun w => w.roll.Sound) ?_ fun _ _ _ hr hw hs =>
    hw.move (step_roll (owned hr) hs)
  constructor
  · intro lane
    cases lane <;> exact List.nodup_nil
  all_goals simp [create, roll, stints]

end Worker

end Outbox
