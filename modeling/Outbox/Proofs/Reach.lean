import Mathlib.Data.List.Induction
import Outbox.Worker.Step

/-! # Runs of a worker

A run is a list of labels, and a state is reachable when a run leads to it from a new worker.
Main statements: `Reachable.induction`, what holds of a new worker and survives every step from a
reachable state holds of all reachable states, and `history_induction`, the same for what speaks of
the steps so far. At the end stand the pieces that short runs of a worker are made of. -/
namespace Outbox.Worker
set_option autoImplicit false

variable {config : Config} {w w' v : Worker}

theorem steps_cons (w : Worker) (l : Label) (ls : List Label) :
    w.steps (l :: ls) = (w.step l).bind (·.steps ls) := rfl

theorem steps_append (w : Worker) (ls ms : List Label) :
    w.steps (ls ++ ms) = (w.steps ls).bind (·.steps ms) :=
  List.foldlM_append

theorem steps_single (w : Worker) (l : Label) : w.steps [l] = w.step l := by
  rw [steps_cons]
  cases w.step l <;> rfl

theorem steps_cons_eq_some {l : Label} {ls : List Label} :
    w.steps (l :: ls) = some w' ↔ ∃ v, w.step l = some v ∧ v.steps ls = some w' := by
  rw [steps_cons, Option.bind_eq_some_iff]

theorem steps_concat_eq_some {l : Label} {ls : List Label} :
    w.steps (ls ++ [l]) = some w' ↔ ∃ v, w.steps ls = some v ∧ v.step l = some w' := by
  rw [steps_append, Option.bind_eq_some_iff]
  simp only [steps_single]

namespace Reachable

theorem create (config : Config) : Reachable config (create config 0) := ⟨[], rfl⟩

theorem steps {ls : List Label} (h : Reachable config w) (hs : w.steps ls = some w') :
    Reachable config w' := by
  obtain ⟨ms, hm⟩ := h
  refine ⟨ms ++ ls, ?_⟩
  rw [steps_append, hm]
  exact hs

theorem step {l : Label} (h : Reachable config w) (hs : w.step l = some w') :
    Reachable config w' :=
  h.steps ((steps_single w l).trans hs)

/-- The induction runs over the labels; the state that a step starts from is reachable too. -/
theorem carry_of_mem {P : Worker → Prop} (h : Reachable config w) {ls : List Label}
    (hs : w.steps ls = some w') (hw : P w)
    (hstep : ∀ w, ∀ l ∈ ls, ∀ w', Reachable config w → P w → w.step l = some w' → P w') : P w' := by
  induction ls generalizing w with
  | nil =>
    cases hs
    exact hw
  | cons l ls ih =>
    obtain ⟨u, hl, hu⟩ := steps_cons_eq_some.mp hs
    exact ih (h.step hl) hu (hstep w l List.mem_cons_self u h hw hl)
      fun v k hk => hstep v k (List.mem_cons_of_mem l hk)

theorem carry {P : Worker → Prop} (h : Reachable config w) {ls : List Label}
    (hs : w.steps ls = some w') (hw : P w)
    (hstep : ∀ w l w', Reachable config w → P w → w.step l = some w' → P w') : P w' :=
  h.carry_of_mem hs hw fun w l _ => hstep w l

theorem induction {P : Worker → Prop} (hcreate : P (Worker.create config 0))
    (hstep : ∀ w l w', Reachable config w → P w → w.step l = some w' → P w')
    (h : Reachable config w) : P w :=
  have ⟨_, hs⟩ := h
  (create config).carry hs hcreate hstep

end Reachable

/-! ## Histories -/

/-- One step of a run. -/
structure Moment where
  source : Worker
  label : Label
  target : Worker

/-- The steps of a run up to its end, or up to the first label that cannot happen. -/
def history (w : Worker) : List Label → List Moment
  | [] => []
  | l :: ls => (w.step l).elim [] fun v => ⟨w, l, v⟩ :: v.history ls

theorem history_cons {l : Label} (hl : w.step l = some v) (ls : List Label) :
    w.history (l :: ls) = ⟨w, l, v⟩ :: v.history ls := by
  rw [history, hl]
  rfl

theorem history_append {ls : List Label} (hs : w.steps ls = some v) (ms : List Label) :
    w.history (ls ++ ms) = w.history ls ++ v.history ms := by
  induction ls generalizing w with
  | nil =>
    cases hs
    rfl
  | cons l ls ih =>
    obtain ⟨u, hl, hu⟩ := steps_cons_eq_some.mp hs
    rw [List.cons_append, history_cons hl, history_cons hl, ih hu, List.cons_append]

theorem history_concat {ls : List Label} {l : Label} (hs : w.steps ls = some v)
    (hl : v.step l = some w') : w.history (ls ++ [l]) = w.history ls ++ [⟨v, l, w'⟩] := by
  rw [history_append hs, history_cons hl]
  rfl

theorem prefix_of_mem_history {ls : List Label} {m : Moment} (hm : m ∈ w.history ls) :
    ∃ ms, ms ++ [m.label] <+: ls ∧ w.steps ms = some m.source ∧
      m.source.step m.label = some m.target := by
  induction ls generalizing w with
  | nil => cases hm
  | cons l ls ih =>
    unfold history at hm
    cases hl : w.step l with
    | none =>
      rw [hl] at hm
      cases hm
    | some v =>
      rw [hl, Option.elim_some] at hm
      rcases List.mem_cons.mp hm with rfl | hm
      · exact ⟨[], List.cons_prefix_cons.mpr ⟨rfl, List.nil_prefix⟩, rfl, hl⟩
      · obtain ⟨ms, hp, hs, ht⟩ := ih hm
        exact ⟨l :: ms, List.cons_prefix_cons.mpr ⟨rfl, hp⟩, steps_cons_eq_some.mpr ⟨v, hl, hs⟩, ht⟩

/-- The induction runs over the labels from the last one on; what is shown may speak of all steps
so far. -/
theorem history_induction {P : List Moment → Worker → Prop} (hcreate : P [] (create config 0))
    (hstep : ∀ h u l v, Reachable config u → P h u → u.step l = some v → P (h ++ [⟨u, l, v⟩]) v)
    {ls : List Label} (hs : (create config 0).steps ls = some w) :
    P ((create config 0).history ls) w := by
  induction ls using List.reverseRecOn generalizing w with
  | nil =>
    cases hs
    exact hcreate
  | append_singleton ls l ih =>
    obtain ⟨u, hu, hl⟩ := steps_concat_eq_some.mp hs
    rw [history_concat hu hl]
    exact hstep _ u l w ⟨ls, hu⟩ (ih hu) hl

/-! ## Pieces of short runs -/

/-- Takes a new worker to its running loop. -/
def opening : List Label := [.start, .enter, .point, .openLink, .opened, .prepare []]

/-- A job goes from its caller into the hands of the loop, if there is nothing else to do. -/
def handing (job : Job) : List Label := [.submit job .zero, .iterate]

/-- An executor is started for a job, and the loop hears that it is held. -/
def launching (job : Job) : List Label := handing job ++ [.dispatch ⟨true, false, true⟩, .iterate]

def advancing (run steps : Nat) : List Label := List.replicate steps (.advance run .none)

end Outbox.Worker
