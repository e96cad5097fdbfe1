import Outbox.Proofs.InFlight.Ownership

/-! # Sending a message again

A plain message job, one whose message may not go out again while it is in flight, is let in
exactly if no live run owns the id. This keeps it apart from the run that claimed the id. A run that
went ahead beside the owner owns nothing; once the owner has ended nothing tells of it any more, and
the plain job goes out beside it. Main statement: `plain_beside_live_iff`. -/
namespace Outbox.Worker
set_option autoImplicit false

variable {config : Config} {w w' : Worker} {job : Job} {view : View} {id : MessageId}

/-- The job gets a run of its own, on the loop or beside it. -/
def Admits (w w' : Worker) (job : Job) : Prop :=
  ∃ r, w'.runs = w.runs ++ [r] ∧ r.job = job ∧ r.kind ≠ .refused

theorem dispatched_of_step (hp : w.loop.picked = some job)
    (hs : w.step (.dispatch view) = some w') :
    Dispatched (w.withLoop { w.loop with picked := none }) job view w' := by
  obtain ⟨picked, hp', rfl⟩ := dispatch_of_step hs
  cases hp.symm.trans hp'
  exact dispatch_spec _ job view

theorem admits_iff (hp : w.loop.picked = some job) (hs : w.step (.dispatch view) = some w') :
    Admits w w' job ↔
      w.isOpen view = true ∧ view.houses job = true ∧
        ∃ claim s, claimFor w.inFlight job = .ok (.proceed claim, s) := by
  have hsame : w'.runs = w.runs → ¬ Admits w w' job := by
    rintro he ⟨r, hr, _⟩
    rw [he] at hr
    exact List.cons_ne_nil r [] (List.self_eq_append_right.mp hr)
  cases dispatched_of_step hp hs with
  | closed r _ ho =>
    have hclosed : w.isOpen view = false := ho
    rw [hclosed]
    exact ⟨fun ha => absurd ha (hsame rfl), fun ⟨hn, _⟩ => nomatch hn⟩
  | duplicate s _ hc =>
    refine ⟨fun ha => absurd ha (hsame rfl), ?_⟩
    rintro ⟨_, _, claim, t, hpr⟩
    cases hc.symm.trans hpr
  | refused p listeners custom _ hc =>
    constructor
    · rintro ⟨r, hr, _, hk⟩
      have hr : w.runs ++ [_] = w.runs ++ [r] := hr
      cases List.append_cancel_left hr
      exact absurd rfl hk
    · rintro ⟨_, _, claim, t, hpr⟩
      cases hc.symm.trans hpr
  | inline claim s listeners custom ho hc hlane =>
    exact ⟨fun _ => ⟨ho, View.houses_of_inline hlane, claim, s, hc⟩,
      fun _ => ⟨_, rfl, rfl, RunKind.noConfusion⟩⟩
  | detached claim s listeners custom ho hc hlane _ hspawns =>
    obtain ⟨ticket, handle, hl⟩ := ledger_launch
      (w := (w.withLoop { w.loop with picked := none }).admitting s listeners) job claim custom rfl
    exact ⟨fun _ => ⟨ho, (View.houses_of_detached hlane).trans hspawns, claim, s, hc⟩,
      fun _ => ⟨_, congrArg Ledger.runs hl, rfl, RunKind.noConfusion⟩⟩
  | unstarted claim s _ _ hlane hspawns =>
    refine ⟨fun ha => absurd ha (hsame (congrArg Ledger.runs (ledger_unstarted _ job))), ?_⟩
    rintro ⟨_, hhouses, _⟩
    cases (View.houses_of_detached hlane).symm.trans hhouses |>.symm.trans hspawns

/-- Without an owner of the id every live run of the message went ahead beside an earlier one. -/
theorem override_of_ownerless {g : Ledger} (h : g.Owned) (hfree : id ∉ g.inFlight.ids) {r : Run}
    (hr : r ∈ g.runs) (hs : r.job.Sends id) : r.claim = none ∧ r.job.mayResend = true := by
  have hc : r.claim = none := by
    cases hclaim : r.claim with
    | none => rfl
    | some id' =>
      have hid : id' = id := (h.sends r hr id' hclaim).unique hs
      exact absurd ((h.mem_ids_iff id).mpr ⟨r, hr, hid ▸ hclaim⟩) hfree
  exact ⟨hc, h.beside r hr hc id hs⟩

/-- A plain job is never let in beside the run that owns its id. It is let in beside another live
run of its message exactly if nothing bars the way to the connection, there is a thread for its run
and all live runs of the message are on executors and own nothing. -/
theorem plain_beside_live_iff (h : Reachable config w) (hp : w.loop.picked = some job)
    (hs : job.Sends id) (hplain : job.mayResend = false)
    (hstep : w.step (.dispatch view) = some w') :
    (Admits w w' job → ∀ r ∈ w.runs, r.claim ≠ some id) ∧
    ((Admits w w' job ∧ ∃ r ∈ w.runs, r.job.Sends id) ↔
      w.isOpen view = true ∧ view.houses job = true ∧ (∃ r ∈ w.runs, r.job.Sends id) ∧
        ∀ r ∈ w.runs, r.job.Sends id →
          r.claim = none ∧ r.job.mayResend = true ∧ r.kind.onLoop = false) := by
  have ho := owned h
  have hfree : (∃ claim s, claimFor w.inFlight job = .ok (.proceed claim, s)) ↔
      id ∉ w.inFlight.ids := by
    rw [claimFor_sends hs, hplain]
    by_cases hid : id ∈ w.inFlight.ids <;> simp [hid]
  rw [admits_iff hp hstep, hfree]
  refine ⟨fun ⟨_, _, hid⟩ r hr hc => hid ((ho.mem_ids_iff id).mpr ⟨r, hr, hc⟩), ?_⟩
  constructor
  · rintro ⟨⟨hopen, hhouses, hid⟩, hlive⟩
    refine ⟨hopen, hhouses, hlive, fun r hr hsr => ?_⟩
    obtain ⟨hc, hm⟩ := override_of_ownerless ho hid hr hsr
    exact ⟨hc, hm, ho.alone (Option.isSome_of_mem hp) r hr⟩
  · rintro ⟨hopen, hhouses, hlive, hnone⟩
    refine ⟨⟨hopen, hhouses, fun hid => ?_⟩, hlive⟩
    obtain ⟨r, hr, hc⟩ := (ho.mem_ids_iff id).mp hid
    have hclaim := (hnone r hr (ho.sends r hr id hc)).1
    cases hc.symm.trans hclaim

def note : Job := .sendingSeven none (.finish (.ok ⟨"sent"⟩))

/-- Two uploads of a message are live and the first of them ends: then the message goes out once
more, plain, beside the second. -/
theorem plain_beside_override :
    ∃ w w', Reachable {} w ∧ w.loop.picked = some note ∧ note.mayResend = false ∧
      w.step (.dispatch ⟨true, false, true⟩) = some w' ∧
      Admits w w' note ∧ ∃ r ∈ w.runs, r.job.Sends ⟨7⟩ := by
  have h : ∃ w w' r, Reachable {} w ∧ w.loop.picked = some note ∧
      w.step (.dispatch ⟨true, false, true⟩) = some w' ∧ w.isOpen ⟨true, false, true⟩ = true ∧
      w.runs = [r] ∧ r.job = upload ∧ r.claim = none ∧ r.kind.onLoop = false :=
    ⟨_, _, _, ⟨opening ++ launching upload ++ launching upload ++ advancing 1 5 ++ handing note, rfl⟩,
      rfl, rfl, rfl, rfl, rfl, rfl, rfl⟩
  obtain ⟨w, w', r, hw, hp, hstep, hopen, hruns, hjob, hclaim, hloop⟩ := h
  have hnote : note.Sends ⟨7⟩ := ⟨_, rfl, rfl⟩
  have hupload : upload.Sends ⟨7⟩ := ⟨_, rfl, rfl⟩
  have hlive : ∃ r ∈ w.runs, r.job.Sends ⟨7⟩ :=
    ⟨r, hruns ▸ List.mem_singleton_self r, hjob ▸ hupload⟩
  refine ⟨w, w', hw, hp, rfl, hstep,
    (plain_beside_live_iff hw hp hnote rfl hstep).2.mpr ⟨hopen, rfl, hlive, ?_⟩⟩
  intro q hq _
  rw [hruns] at hq
  obtain rfl := List.mem_singleton.mp hq
  rw [hjob]
  exact ⟨hclaim, rfl, hloop⟩

end Outbox.Worker
