import Outbox.Proofs.Listeners.Standing
import Outbox.Proofs.Runs.Broadcast

/-! # Who hears of a run

A run tells whoever is registered on its lane. Executors share a lane, so the listener that one of
them brings along hears of all of them, and votes on their failures, as long as it is registered;
on the loop a run is alone with its own listener. Main statement: `overheard_beside_executors`. -/
namespace Outbox
set_option autoImplicit false

namespace Worker
variable {config : Config} {w : Worker} {ls : List Label} {r : Run} {l : ListenerName}

/-- The listener is registered for the executor of another job, and hears of this run too. -/
def Overhears (h : List Moment) (w : Worker) (r : Run) (l : ListenerName) : Prop :=
  r.job.lane = .detached ∧
    (∃ s ∈ w.stints, s.run ≠ r.id ∧ s.Brings .detached l ∧ ¬ Dismissed h .detached l s.run) ∧
    ¬ Lost h w .detached l

theorem mem_audience_iff (hs : (create config 0).steps ls = some w) (hr : r ∈ w.runs)
    (hk : ¬ Kept ((create config 0).history ls) r.job.lane l) (hown : r.job.listener ≠ some l) :
    l ∈ w.audience r ↔ Overhears ((create config 0).history ls) w r l := by
  have hsound := roll_sound ⟨ls, hs⟩
  have hstint : r.stint ∈ w.stints := List.mem_map_of_mem hr
  have hmem := (standing_of_steps hs r.job.lane l).mem_iff hsound
  change l ∈ (w.listeners.on r.job.lane).members ↔ _
  rw [hmem]
  constructor
  · rintro ⟨hk' | ⟨s, hmems, hb, hd⟩, hl⟩
    · exact absurd hk' hk
    have hne : s ≠ r.stint := by
      rintro rfl
      exact hown hb.2
    cases hlane : r.job.lane with
    | inline =>
      exact absurd (hsound.eq_of_inline hmems hstint (hb.1.trans hlane) hlane) hne
    | detached =>
      rw [hlane] at hb hd hl
      exact ⟨hlane, ⟨s, hmems, fun he => hne (hsound.eq_of_run hmems hstint he), hb, hd⟩, hl⟩
  · rintro ⟨hlane, ⟨s, hmems, _, hb, hd⟩, hl⟩
    rw [hlane]
    exact ⟨.inr ⟨s, hmems, hb, hd⟩, hl⟩

/-- Whoever is told of a run is kept by callers, is the job's own listener, or overhears it. -/
theorem audience_cases (hs : (create config 0).steps ls = some w) (hr : r ∈ w.runs)
    (hl : l ∈ w.audience r) :
    Kept ((create config 0).history ls) r.job.lane l ∨ r.job.listener = some l ∨
      Overhears ((create config 0).history ls) w r l := by
  by_cases hk : Kept ((create config 0).history ls) r.job.lane l
  · exact .inl hk
  by_cases hown : r.job.listener = some l
  · exact .inr (.inl hown)
  · exact .inr (.inr ((mem_audience_iff hs hr hk hown).mp hl))

/-- In every state that a run comes to: a listener that neither callers keep nor the job brings
is in the audience of a run exactly if it overhears it, which takes an executor beside another one
whose job brings the listener. Whoever is told of a run was in its audience when that was
announced, so it was kept, the job's own, or it overheard. And a failure is retried exactly if a
vote was for it, where everybody in the audience at the time of its report votes. -/
theorem overheard_beside_executors (hs : (create config 0).steps ls = some w) :
    (∀ r ∈ w.runs, ∀ l, ¬ Kept ((create config 0).history ls) r.job.lane l →
      r.job.listener ≠ some l →
        (l ∈ w.audience r ↔ Overhears ((create config 0).history ls) w r l)) ∧
    (∀ n l x, .told n l x ∈ w.chronicle n → ∃ ms u r, ms <+: ls ∧
      (create config 0).steps ms = some u ∧ r ∈ u.runs ∧ r.id = n ∧ l ∈ u.audience r ∧
      (∃ events p, Stride u r .none (some x) events p) ∧
      (Kept ((create config 0).history ms) r.job.lane l ∨ r.job.listener = some l ∨
        Overhears ((create config 0).history ms) u r l)) ∧
    (∀ r ∈ w.runs, ∀ f vote, r.phase = .blaming f [] vote →
      w.step (.advance r.id .none) = some (w.count r vote) ∧
      (vote = true ↔ ∃ l, (l, true) ∈ ballots (w.chronicle r.id)) ∧
      ∃ ms u q, ms <+: ls ∧ (create config 0).steps ms = some u ∧ q ∈ u.runs ∧ q.id = r.id ∧
        q.phase = .failing f ∧ u.hushes q f = false ∧
        (ballots (w.chronicle r.id)).map Prod.fst = u.audience q) := by
  refine ⟨fun r hr l hk hown => mem_audience_iff hs hr hk hown, ?_, ?_⟩
  · intro n l x htold
    rcases walk_of_event hs htold with he | ⟨first, q, es, hf, rfl, hmem, hw⟩
    · cases he
    obtain ⟨m, hm, r, hr, hid, _, hl, hstride⟩ := (hw.heralded hf).2 l x hmem
    obtain ⟨ms, hp, hu, _⟩ := prefix_of_mem_history hm
    exact ⟨ms, m.source, r, (List.prefix_append ms _).trans hp, hu, hr, hid, hl, hstride,
      audience_cases hu hr hl⟩
  · intro r hr f vote hp
    obtain ⟨first, hf, hw⟩ := walk_of_live hs hr
    refine ⟨?_, ?_⟩
    · rw [step_advance (owned ⟨ls, hs⟩) hr]
      unfold advanceRun?
      rw [hp]
    obtain ⟨⟨m, hm, q, hq, hid, hfailing, _, hh, hvoters⟩, hv⟩ := (hw.poll hf).of_blaming hp
    obtain ⟨ms, hprefix, hu, _⟩ := prefix_of_mem_history hm
    rw [List.append_nil] at hvoters
    refine ⟨?_, ms, m.source, q, (List.prefix_append ms _).trans hprefix, hu, hq, hid, hfailing,
      hh, hvoters⟩
    rw [hv, List.any_eq_true]
    constructor
    · rintro ⟨⟨l, v⟩, hmem, rfl⟩
      exact ⟨l, hmem⟩
    · rintro ⟨l, hmem⟩
      exact ⟨(l, true), hmem, rfl⟩

def accompaniedUpload : Job where
  id := .ofNat 1
  isAsync := true
  listener := some "nosy"
  plan := .finish (.ok ⟨"done"⟩)

def doomed : Job where
  id := .ofNat 2
  isAsync := true
  plan := .finish (.error .disconnected)

/-- Of two executors the first brings a listener and has not started; the second fails, and the
listener of the first votes. -/
def meddling : List Label :=
  opening ++ launching accompaniedUpload ++ launching doomed ++ advancing 2 6 ++
    [.advance 2 (.vote true)]

/-- The only vote is that of the other job's listener, and the failed job is retried. -/
theorem retried_by_overhearing_vote :
    ∃ w r, (create {} 0).steps meddling = some w ∧ r ∈ w.runs ∧ r.job.listener = none ∧
      r.phase = .blaming .disconnected [] true ∧
      Overhears ((create {} 0).history meddling) w r "nosy" ∧
      ballots (w.chronicle r.id) = [("nosy", true)] ∧
      w.step (.advance r.id .none) = some (w.count r true) := by
  have h : ∃ w r, (create {} 0).steps meddling = some w ∧ w.runs[1]? = some r ∧
      r.job.listener = none ∧ r.phase = .blaming .disconnected [] true ∧
      w.audience r = ["nosy"] ∧ ballots (w.chronicle r.id) = [("nosy", true)] ∧
      ((create {} 0).history meddling).filterMap (·.label.call? r.job.lane "nosy") = [] :=
    ⟨_, _, rfl, rfl, rfl, rfl, rfl, rfl, rfl⟩
  obtain ⟨w, r, hs, hget, hown, hp, haudience, hballots, hcalls⟩ := h
  have hr : r ∈ w.runs := List.mem_of_getElem? hget
  have hk : ¬ Kept ((create {} 0).history meddling) r.job.lane "nosy" := by
    rw [Kept, hcalls]
    exact nofun
  obtain ⟨hmem, _, hcount⟩ := overheard_beside_executors hs
  refine ⟨w, r, hs, hr, hown, hp, ?_, hballots, (hcount r hr _ _ hp).1⟩
  refine (hmem r hr "nosy" hk (by rw [hown]; exact nofun)).mp ?_
  rw [haudience]
  exact List.mem_singleton_self _

end Worker

end Outbox
