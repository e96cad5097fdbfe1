import Outbox.Proofs.Runs.Walk

/-! # A run from any moment on

From a state in which a run is live it is followed until it has ended and beyond. Only its own steps
change its phase and its chronicle, and its number is not given to another run. Main statement:
`follow`, what holds of the phase and the chronicle of a live run and survives its own steps holds
of them as long as it is live, and of the chronicle that it leaves behind. -/
namespace Outbox.Worker
set_option autoImplicit false

variable {config : Config} {w v : Worker} {l : Label} {r first : Run}

/-- A step leaves a live run alone, takes it on, or ends it. -/
theorem Passage.of_live (ho : w.ledger.Owned) (hs : Passage w v l) (hr : r ∈ w.runs) :
    (r ∈ v.runs ∧ v.chronicle r.id = w.chronicle r.id) ∨
    (∃ reply events p, l = .advance r.id reply ∧ Pace w r reply events p ∧
      { r with phase := p } ∈ v.runs ∧ v.chronicle r.id = w.chronicle r.id ++ events) ∨
    (l = .advance r.id .none ∧ r.phase = .exiting ∧ (∀ q ∈ v.runs, q.id ≠ r.id) ∧
      v.chronicle r.id = w.chronicle r.id ++ [.ended r.id]) := by
  cases hs with
  | apart hruns hc => exact .inl ⟨hruns ▸ hr, hc r.id⟩
  | begun q _ _ hruns hc => exact .inl ⟨hruns ▸ List.mem_append_left _ hr, hc r.id⟩
  | going q reply events p hq hpace hruns hc =>
    by_cases hid : r.id = q.id
    · obtain rfl := ho.eq_of_id hr hq hid
      have hmem : { r with phase := p } ∈ v.runs := by
        rw [hruns]
        exact List.mem_map.mpr ⟨r, hr, if_pos rfl⟩
      refine .inr (.inl ⟨reply, events, p, rfl, hpace, hmem, ?_⟩)
      rw [hc, if_pos rfl]
    · refine .inl ⟨?_, ?_⟩
      · rw [hruns]
        exact Fate.mem_setPhase_of_ne hr hid
      · rw [hc, if_neg hid, List.append_nil]
  | ended q hq hp hruns hc =>
    by_cases hid : r.id = q.id
    · obtain rfl := ho.eq_of_id hr hq hid
      refine .inr (.inr ⟨rfl, hp, fun s hs => ?_, ?_⟩)
      · rw [hruns] at hs
        exact bne_iff_ne.mp (List.mem_filter.mp hs).2
      · rw [hc, if_pos rfl]
    · refine .inl ⟨?_, ?_⟩
      · rw [hruns]
        exact List.mem_filter.mpr ⟨hr, bne_iff_ne.mpr hid⟩
      · rw [hc, if_neg hid, List.append_nil]

/-- Where a run stands that was live: `P` speaks of its phase and its chronicle. -/
inductive Followed (P : Phase → List Event → Prop) (first : Run) (w : Worker) : Prop
  | live (r : Run) (hr : r ∈ w.runs) (hs : r.Same first) (hp : P r.phase (w.chronicle first.id))
  | ended (es : List Event) (hgone : ∀ q ∈ w.runs, q.id ≠ first.id) (hn : first.id ≤ w.lastRun)
      (hp : P .exiting es) (hc : w.chronicle first.id = es ++ [.ended first.id])

/-- The run's own steps keep `P` in states of which `I` holds. -/
def Keeps (config : Config) (first : Run) (I : Worker → Prop) (P : Phase → List Event → Prop) :
    Prop :=
  ∀ u r reply events p es, Reachable config u → I u → r ∈ u.runs → r.Same first →
    Pace u r reply events p → P r.phase es → P p (es ++ events)

variable {I : Worker → Prop} {P : Phase → List Event → Prop}

theorem Followed.step (hk : Keeps config first I P) (hw : Reachable config w) (hi : I w)
    (h : Followed P first w) (hl : w.step l = some v) : Followed P first v := by
  have ho := owned hw
  have hle := (step_roll ho hl).lastRun_le
  cases h with
  | live r hr hs hp =>
    have hid := hs.id_eq
    rcases (step_passage hl).of_live ho hr with ⟨hmem, hc⟩ |
      ⟨reply, events, p, _, hpace, hmem, hc⟩ | ⟨_, hphase, hgone, hc⟩ <;> rw [hid] at hc
    · exact .live r hmem hs (hc ▸ hp)
    · exact .live _ hmem (.trans ⟨p, rfl⟩ hs) (hc ▸ hk w r reply events p _ hw hi hr hs hpace hp)
    · exact .ended _ (hid ▸ hgone) (Nat.le_trans (hid ▸ ho.run_le r hr) hle) (hphase ▸ hp) hc
  | ended es hgone hn hp hc =>
    -- Numbers are not given twice, so the run does not begin again.
    obtain ⟨hsame, hgone' | ⟨hnew, _⟩⟩ := Fate.absent hgone (step_passage hl)
    · exact .ended es hgone' (Nat.le_trans hn hle) hp (hsame.trans hc)
    · omega

/-- The induction runs over the labels; `I` is an invariant of all their steps, and `P` one of the
run's own. -/
theorem follow (hk : Keeps config r I P)
    {ls : List Label}
    (hI : ∀ u, ∀ l ∈ ls, ∀ u', Reachable config u → I u → u.step l = some u' → I u')
    (hw : Reachable config w) (hi : I w) (hr : r ∈ w.runs) (hp : P r.phase (w.chronicle r.id))
    (hs : w.steps ls = some v) : Followed P r v := by
  have hstart : I w ∧ Followed P r w := ⟨hi, .live r hr (.refl r) hp⟩
  refine (hw.carry_of_mem (P := fun u => I u ∧ Followed P r u) hs hstart ?_).2
  exact fun u l hl u' hu h hu' => ⟨hI u l hl u' hu h.1 hu', h.2.step hk hu h.1 hu'⟩

end Outbox.Worker
