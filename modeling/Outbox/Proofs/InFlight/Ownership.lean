import Mathlib.Data.List.Nodup
import Outbox.Proofs.InFlight.Ledger
import Outbox.Proofs.Reach

/-! # Who owns the ids in flight

Every id in flight belongs to exactly one live run, the one whose claim put it there, and only that
run's end takes it out again. `Ledger.Owned` is the invariant: up to their order the ids in flight
are the claims of the live runs. -/
namespace Outbox
set_option autoImplicit false

namespace Ledger

structure Owned (g : Ledger) : Prop where
  run_le : ∀ r ∈ g.runs, r.id ≤ g.lastRun
  runs_nodup : (g.runs.map Run.id).Nodup
  ids : g.inFlight.ids.Perm (g.runs.filterMap Run.claim)
  ids_nodup : g.inFlight.ids.Nodup
  /-- A run owns no id but that of its own message. -/
  sends : ∀ r ∈ g.runs, ∀ id, r.claim = some id → r.job.Sends id
  /-- A run that owns nothing sends no message or one that may go out beside another. -/
  beside : ∀ r ∈ g.runs, r.claim = none → ∀ id, r.job.Sends id → r.job.mayResend = true
  /-- The loop has no job at hand while it runs one itself. -/
  alone : g.picked.isSome = true → ∀ r ∈ g.runs, r.kind.onLoop = false

variable {g : Ledger}

/-! ## Changing phases -/

theorem mem_setPhase {id : Nat} {p : Phase} {s : Run} (h : s ∈ (g.setPhase id p).runs) :
    ∃ r ∈ g.runs, ∃ q, s = { r with phase := q } := by
  obtain ⟨r, hr, rfl⟩ := List.mem_map.mp h
  refine ⟨r, hr, ?_⟩
  split
  · exact ⟨p, rfl⟩
  · exact ⟨r.phase, rfl⟩

theorem map_setPhase {α : Type} (π : Run → α) (hπ : ∀ r p, π { r with phase := p } = π r)
    (g : Ledger) (id : Nat) (p : Phase) : (g.setPhase id p).runs.map π = g.runs.map π := by
  rw [setPhase, List.map_map]
  apply List.map_congr_left
  intro r _
  simp only [Function.comp_apply]
  split
  · exact hπ r p
  · rfl

theorem claims_setPhase (g : Ledger) (id : Nat) (p : Phase) :
    (g.setPhase id p).runs.filterMap Run.claim = g.runs.filterMap Run.claim := by
  rw [setPhase, List.filterMap_map]
  apply List.filterMap_congr
  intro r _
  simp only [Function.comp_apply]
  split <;> rfl

theorem Owned.setPhase (h : g.Owned) (id : Nat) (p : Phase) : (g.setPhase id p).Owned where
  run_le s hs := by
    obtain ⟨r, hr, q, rfl⟩ := mem_setPhase hs
    exact h.run_le r hr
  runs_nodup := by
    rw [map_setPhase Run.id (fun _ _ => rfl)]
    exact h.runs_nodup
  ids := by
    rw [claims_setPhase]
    exact h.ids
  ids_nodup := h.ids_nodup
  sends s hs := by
    obtain ⟨r, hr, q, rfl⟩ := mem_setPhase hs
    exact h.sends r hr
  beside s hs := by
    obtain ⟨r, hr, q, rfl⟩ := mem_setPhase hs
    exact h.beside r hr
  alone hp s hs := by
    obtain ⟨r, hr, q, rfl⟩ := mem_setPhase hs
    exact h.alone hp r hr

/-! ## Picking a job -/

theorem Owned.hand (h : g.Owned) (job : Option Job)
    (hloop : job.isSome = true → ∀ r ∈ g.runs, r.kind.onLoop = false) : (g.hand job).Owned :=
  { h with alone := hloop }

/-! ## A new run -/

theorem Owned.enter (h : g.Owned) {s : InFlight} {r : Run} (hid : r.id = g.lastRun + 1)
    (hids : s.ids.Perm (r.claim.toList ++ g.inFlight.ids)) (hnodup : s.ids.Nodup)
    (hsends : ∀ id, r.claim = some id → r.job.Sends id)
    (hbeside : r.claim = none → ∀ id, r.job.Sends id → r.job.mayResend = true) :
    (g.enter s r).Owned where
  run_le q hq := by
    rcases List.mem_append.mp hq with hq | hq
    · have hle := h.run_le q hq
      change q.id ≤ r.id
      omega
    · rw [List.mem_singleton.mp hq]
      exact Nat.le_refl _
  runs_nodup := by
    change ((g.runs ++ [r]).map Run.id).Nodup
    rw [List.map_append, List.nodup_append]
    refine ⟨h.runs_nodup, List.nodup_singleton _, ?_⟩
    intro i hi j hj hij
    obtain ⟨q, hq, rfl⟩ := List.mem_map.mp hi
    have hle := h.run_le q hq
    have hr : j = r.id := List.mem_singleton.mp hj
    omega
  ids := by
    change s.ids.Perm ((g.runs ++ [r]).filterMap Run.claim)
    rw [List.filterMap_append]
    have hr : [r].filterMap Run.claim = r.claim.toList := by
      cases hc : r.claim <;> simp [hc]
    rw [hr]
    exact hids.trans (List.perm_append_comm.trans (h.ids.append_right _))
  ids_nodup := hnodup
  sends q hq := by
    rcases List.mem_append.mp hq with hq | hq
    · exact h.sends q hq
    · rw [List.mem_singleton.mp hq]
      exact hsends
  beside q hq := by
    rcases List.mem_append.mp hq with hq | hq
    · exact h.beside q hq
    · rw [List.mem_singleton.mp hq]
      exact hbeside
  alone hp := by cases hp

/-! ## The end of a run -/

theorem Owned.split (h : g.Owned) {r : Run} (hr : r ∈ g.runs) :
    ∃ a b, g.runs = a ++ r :: b ∧ (g.remove r.id).runs = a ++ b := by
  obtain ⟨a, b, hab⟩ := List.append_of_mem hr
  refine ⟨a, b, hab, ?_⟩
  have hn := h.runs_nodup
  rw [hab, List.map_append, List.map_cons, List.nodup_middle, List.nodup_cons, List.mem_append] at hn
  have hkeep : ∀ l : List Run, r.id ∉ l.map Run.id → l.filter (·.id != r.id) = l := by
    intro l hl
    rw [List.filter_eq_self]
    intro q hq
    exact bne_iff_ne.mpr fun he => hl (List.mem_map.mpr ⟨q, hq, he⟩)
  rw [remove, hab, List.filter_append, List.filter_cons, if_neg (by simp),
    hkeep a fun ha => hn.1 (.inl ha), hkeep b fun hb => hn.1 (.inr hb)]

/-- Up to their order the ids in flight are the run's own claim and the claims of the others. -/
theorem Owned.ids_perm (h : g.Owned) {r : Run} (hr : r ∈ g.runs) :
    g.inFlight.ids.Perm (r.claim.toList ++ (g.remove r.id).runs.filterMap Run.claim) := by
  obtain ⟨a, b, hab, hrest⟩ := h.split hr
  refine h.ids.trans ?_
  rw [hab, hrest, List.filterMap_append, List.filterMap_append]
  cases hc : r.claim with
  | none =>
    rw [List.filterMap_cons_none hc]
    exact List.Perm.refl _
  | some id =>
    rw [List.filterMap_cons_some hc]
    exact List.perm_middle

theorem Owned.leave (h : g.Owned) {r : Run} (hr : r ∈ g.runs) : (g.leave r).Owned where
  run_le q hq := h.run_le q (List.mem_of_mem_filter hq)
  runs_nodup := h.runs_nodup.sublist (List.filter_sublist.map _)
  ids := by
    have hp := h.ids_perm hr
    change (r.claim.elim g.inFlight fun id => (g.inFlight.release id).2).ids.Perm _
    cases hc : r.claim with
    | none =>
      rw [hc] at hp
      exact hp
    | some id =>
      rw [hc] at hp
      have he := hp.erase id
      rwa [Option.toList_some, List.singleton_append, List.erase_cons_head] at he
  ids_nodup := by
    change (r.claim.elim g.inFlight fun id => (g.inFlight.release id).2).ids.Nodup
    cases r.claim with
    | none => exact h.ids_nodup
    | some id => exact h.ids_nodup.erase id
  sends q hq := h.sends q (List.mem_of_mem_filter hq)
  beside q hq := h.beside q (List.mem_of_mem_filter hq)
  alone hp q hq := h.alone hp q (List.mem_of_mem_filter hq)

/-! ## Steps and runs -/

theorem Owned.move {l : Label} {g' : Ledger} (h : g.Owned) (hm : g.Move l g') : g'.Owned := by
  cases hm with
  | stay => exact h
  | reset => exact h.hand none fun hn => by cases hn
  | pick job hloop => exact h.hand (some job) fun _ => hloop
  | drop => exact h.hand none fun hn => by cases hn
  | refuse view r _ hid _ hc hs =>
    refine h.enter hid ?_ h.ids_nodup ?_ fun _ id hsends => absurd hsends (hs id)
    all_goals rw [hc]
    · exact List.Perm.refl _
    · exact nofun
  | proceed view r s _ hid _ hc =>
    rcases Worker.claimFor_proceed hc with ⟨id, hclaim, hsends, hfree, rfl⟩ | ⟨hclaim, rfl, hresend⟩
    · refine h.enter hid ?_ (List.nodup_cons.mpr ⟨hfree, h.ids_nodup⟩) ?_ ?_ <;> rw [hclaim]
      · exact List.Perm.refl _
      · exact fun id' he => Option.some.inj he ▸ hsends
      · exact nofun
    · refine h.enter hid ?_ h.ids_nodup ?_ fun _ id hsends => (hresend id hsends).2
      all_goals rw [hclaim]
      · exact List.Perm.refl _
      · exact nofun
  | progress r _ p hr => exact h.setPhase r.id p
  | leave r hr => exact h.leave hr

/-! ## What ownership comes to -/

theorem Owned.mem_ids_iff (h : g.Owned) (id : MessageId) :
    id ∈ g.inFlight.ids ↔ ∃ r ∈ g.runs, r.claim = some id :=
  h.ids.mem_iff.trans List.mem_filterMap

theorem Owned.eq_of_id (h : g.Owned) {r s : Run} (hr : r ∈ g.runs) (hs : s ∈ g.runs)
    (hid : r.id = s.id) : r = s :=
  List.inj_on_of_nodup_map h.runs_nodup hr hs hid

theorem Owned.eq_of_claim (h : g.Owned) {r s : Run} {id : MessageId} (hr : r ∈ g.runs)
    (hs : s ∈ g.runs) (hcr : r.claim = some id) (hcs : s.claim = some id) : s = r := by
  by_contra hne
  have hn := (h.ids_perm hr).nodup_iff.mp h.ids_nodup
  rw [hcr, Option.toList_some, List.singleton_append, List.nodup_cons] at hn
  have hid : s.id ≠ r.id := fun he => hne (h.eq_of_id hs hr he)
  exact hn.1 (List.mem_filterMap.mpr ⟨s, List.mem_filter.mpr ⟨hs, bne_iff_ne.mpr hid⟩, hcs⟩)

theorem Owned.existsUnique (h : g.Owned) {id : MessageId} (hid : id ∈ g.inFlight.ids) :
    ∃! r, r ∈ g.runs ∧ r.claim = some id := by
  obtain ⟨r, hr, hc⟩ := (h.mem_ids_iff id).mp hid
  exact ⟨r, ⟨hr, hc⟩, fun s hs => h.eq_of_claim hr hs.1 hc hs.2⟩

theorem mem_giveBack {claim : Option MessageId} {id : MessageId} (hid : id ∈ g.inFlight.ids)
    (hc : claim ≠ some id) : id ∈ (g.giveBack claim).inFlight.ids := by
  cases claim with
  | none => exact hid
  | some id' =>
    have hne : id ≠ id' := fun he => hc (congrArg some he.symm)
    exact (List.mem_erase_of_ne hne).mpr hid

/-- Only the end of its owner takes an id out. -/
theorem Move.owner_of_lost {l : Label} {g' : Ledger} (hm : g.Move l g') {id : MessageId}
    (hid : id ∈ g.inFlight.ids) (hlost : id ∉ g'.inFlight.ids) :
    ∃ r ∈ g.runs, r.claim = some id ∧ r.phase = .exiting ∧ l = .advance r.id .none := by
  cases hm with
  | stay | reset | pick | drop | refuse | progress => exact absurd hid hlost
  | proceed view r s _ _ _ hc =>
    rcases Worker.claimFor_proceed hc with ⟨id', _, _, _, rfl⟩ | ⟨_, rfl, _⟩
    · exact absurd (List.mem_cons_of_mem id' hid) hlost
    · exact absurd hid hlost
  | leave r hr hp =>
    refine ⟨r, hr, ?_, hp, rfl⟩
    by_contra hc
    exact hlost (mem_giveBack hid hc)

/-- A live run was live before, with the same claim, or it is new; then it owns an id exactly if
its claim to it was the first. -/
theorem Move.origin {l : Label} {g' : Ledger} (hm : g.Move l g') {r : Run} (hr : r ∈ g'.runs) :
    (∃ q ∈ g.runs, ∃ p, r = { q with phase := p }) ∨
      ((∃ view, l = .dispatch view) ∧ ∀ id, r.claim = some id ↔
        r.job.Sends id ∧ (g.inFlight.claim id r.job.mayResend).1 = .claimed) := by
  have hold : ∀ {r}, r ∈ g.runs → ∃ q ∈ g.runs, ∃ p, r = { q with phase := p } :=
    fun {r} hr => ⟨r, hr, r.phase, rfl⟩
  cases hm with
  | stay | reset | pick | drop => exact .inl (hold hr)
  | progress q _ p => exact .inl (mem_setPhase hr)
  | leave q => exact .inl (hold (List.mem_of_mem_filter hr))
  | refuse view q _ _ _ hc hs =>
    rcases List.mem_append.mp hr with hr | hr
    · exact .inl (hold hr)
    obtain rfl := List.mem_singleton.mp hr
    refine .inr ⟨⟨view, rfl⟩, fun id => ?_⟩
    rw [hc]
    exact ⟨nofun, fun hs' => absurd hs'.1 (hs id)⟩
  | proceed view q s _ _ _ hc =>
    rcases List.mem_append.mp hr with hr | hr
    · exact .inl (hold hr)
    obtain rfl := List.mem_singleton.mp hr
    refine .inr ⟨⟨view, rfl⟩, fun id => ?_⟩
    rw [InFlight.claim_eq_claimed_iff]
    rcases Worker.claimFor_proceed hc with ⟨id', hclaim, hsends, hfree, _⟩ | ⟨hclaim, _, hresend⟩
    · rw [hclaim, Option.some.injEq]
      constructor
      · rintro rfl
        exact ⟨hsends, hfree⟩
      · rintro ⟨hsends', _⟩
        exact hsends.unique hsends'
    · rw [hclaim]
      exact ⟨nofun, fun ⟨hsends, hfree⟩ => absurd (hresend id hsends).1 hfree⟩

end Ledger

namespace Worker
variable {config : Config} {w : Worker}

theorem owned (h : Reachable config w) : w.ledger.Owned := by
  refine h.induction (P := fun w => w.ledger.Owned) ?_ fun _ _ _ _ hw hs => hw.move (step_move hs)
  constructor <;> simp [create, ledger]

theorem runs_split (ho : w.ledger.Owned) {r : Run} (hr : r ∈ w.runs) :
    ∃ a b, w.runs = a ++ r :: b ∧ w.runs.filter (·.id != r.id) = a ++ b ∧
      ∀ p, (w.setPhase r.id p).runs = a ++ { r with phase := p } :: b := by
  obtain ⟨a, b, hab, hrest⟩ := ho.split hr
  have hab : w.runs = a ++ r :: b := hab
  have hrest : w.runs.filter (·.id != r.id) = a ++ b := hrest
  refine ⟨a, b, hab, hrest, fun p => ?_⟩
  have hkeep : ∀ q ∈ a ++ b, (if q.id = r.id then { q with phase := p } else q) = q := by
    intro q hq
    rw [← hrest] at hq
    exact if_neg (bne_iff_ne.mp (List.mem_filter.mp hq).2)
  obtain ⟨ha, hb⟩ := List.forall_mem_append.mp hkeep
  have hmap : ∀ l : List Run, (∀ q ∈ l, (if q.id = r.id then { q with phase := p } else q) = q) →
      l.map (fun q => if q.id = r.id then { q with phase := p } else q) = l := fun l hl =>
    (List.map_congr_left hl).trans (List.map_id _)
  rw [setPhase, hab, List.map_append, List.map_cons, if_pos rfl, hmap a ha, hmap b hb]

/-- One run counts with its new phase instead of its old one. -/
theorem countP_setPhase (ho : w.ledger.Owned) {r : Run} (hr : r ∈ w.runs) (P : Run → Bool)
    (p : Phase) : (w.setPhase r.id p).runs.countP P + (P r).toNat =
      w.runs.countP P + (P { r with phase := p }).toNat := by
  obtain ⟨a, b, hab, _, hset⟩ := runs_split ho hr
  rw [hset, hab, List.countP_append, List.countP_append, List.countP_cons, List.countP_cons]
  cases P r <;> cases P { r with phase := p } <;> simp <;> omega

theorem countP_leave (ho : w.ledger.Owned) {r : Run} (hr : r ∈ w.runs) (P : Run → Bool) :
    (w.runs.filter (·.id != r.id)).countP P + (P r).toNat = w.runs.countP P := by
  obtain ⟨a, b, hab, hrest, _⟩ := runs_split ho hr
  rw [hrest, hab, List.countP_append, List.countP_append, List.countP_cons]
  cases P r <;> simp [Nat.add_assoc]

theorem findRun?_eq (ho : w.ledger.Owned) {r : Run} (hr : r ∈ w.runs) :
    w.findRun? r.id = some r := by
  have hsome : (w.runs.find? (·.id == r.id)).isSome = true :=
    List.find?_isSome.mpr ⟨r, hr, beq_self_eq_true r.id⟩
  obtain ⟨q, hq⟩ := Option.isSome_iff_exists.mp hsome
  have hid := List.find?_some hq
  exact hq.trans (congrArg some
    (ho.eq_of_id (List.mem_of_find?_eq_some hq) hr (beq_iff_eq.mp hid)))

/-- The next step of a live run is the step of its number. -/
theorem step_advance (ho : w.ledger.Owned) {r : Run} (hr : r ∈ w.runs) (reply : Reply) :
    w.step (.advance r.id reply) = w.advanceRun? r reply := by
  change (w.findRun? r.id).bind _ = _
  rw [findRun?_eq ho hr]
  rfl

/-- In every reachable state the ids in flight are those that live runs claimed, each owned by one
of them. A run owns an id from its dispatch, if its claim was the first; only the end of that run
gives the id back, and finds it; without a live run there is none in flight. -/
theorem inFlight_owned_by_live_runs (h : Reachable config w) :
    (∀ id, id ∈ w.inFlight.ids ↔ ∃ r ∈ w.runs, r.claim = some id) ∧
    (∀ id ∈ w.inFlight.ids, ∃! r, r ∈ w.runs ∧ r.claim = some id) ∧
    (w.runs.map Run.id).Nodup ∧
    (∀ l w', w.step l = some w' → ∀ r ∈ w'.runs,
      (∃ q ∈ w.runs, ∃ p, r = { q with phase := p }) ∨
        ((∃ view, l = .dispatch view) ∧ ∀ id, r.claim = some id ↔
          r.job.Sends id ∧ (w.inFlight.claim id r.job.mayResend).1 = .claimed)) ∧
    (∀ l w', w.step l = some w' → ∀ id ∈ w.inFlight.ids, id ∉ w'.inFlight.ids →
      ∃ r ∈ w.runs, r.claim = some id ∧ r.phase = .exiting ∧ l = .advance r.id .none) ∧
    (∀ r ∈ w.runs, ∀ id, r.claim = some id → (w.inFlight.release id).1 = true) ∧
    (w.runs = [] → w.inFlight.ids = []) := by
  have ho := owned h
  refine ⟨ho.mem_ids_iff, fun _ => ho.existsUnique, ho.runs_nodup, ?_, ?_, ?_, ?_⟩
  · intro l w' hs r hr
    exact (step_move hs).origin hr
  · intro l w' hs id hid hlost
    exact (step_move hs).owner_of_lost hid hlost
  · intro r hr id hc
    exact decide_eq_true ((ho.mem_ids_iff id).mpr ⟨r, hr, hc⟩)
  · intro hnone
    have hp : w.inFlight.ids.Perm (w.runs.filterMap Run.claim) := ho.ids
    rw [hnone] at hp
    exact hp.eq_nil

def upload : Job := .sendingSeven (some "photo") (.finish (.ok ⟨"sent"⟩))

/-- Of two live runs that upload to one message the first owns its id and the second nothing. -/
theorem owner_beside_override :
    ∃ w, Reachable {} w ∧ w.runs.map Run.claim = [some ⟨7⟩, none] ∧
      ∃! r, r ∈ w.runs ∧ r.claim = some ⟨7⟩ := by
  have h : ∃ w, Reachable {} w ∧ w.runs.map Run.claim = [some ⟨7⟩, none] ∧ w.inFlight.ids = [⟨7⟩] :=
    ⟨_, ⟨opening ++ launching upload ++ launching upload, rfl⟩, rfl, rfl⟩
  obtain ⟨w, hw, hruns, hids⟩ := h
  refine ⟨w, hw, hruns, (inFlight_owned_by_live_runs hw).2.1 ⟨7⟩ ?_⟩
  rw [hids]
  exact List.mem_singleton_self _

end Worker

end Outbox
