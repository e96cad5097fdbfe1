import Outbox.Fleet
import Outbox.Proofs.Replay.First

/-! # Who takes the pending jobs

`handouts` reads off what happened in a fleet to whom every pushed job goes: to the worker whose
loop is the first to prepare after the push, or to nobody yet. The fleet keeps to it: the queue
holds what goes to nobody, and each worker took over just its share. Main statement:
`pending_handed_out_once`. -/
namespace Outbox.Fleet
set_option autoImplicit false

/-- The loop of worker `i` prepares. -/
def Happening.prepares (i : Nat) : Happening → Bool
  | .prepare j => j == i
  | _ => false

/-- The worker whose loop is the first to prepare. -/
def firstPreparer : List Happening → Option Nat
  | [] => none
  | .prepare i :: _ => some i
  | _ :: hs => firstPreparer hs

/-- Every job that was pushed, in the order of the pushes, and who takes it. -/
def handouts : List Happening → List (Job × Option Nat)
  | [] => []
  | .push job :: hs => (job, firstPreparer hs) :: handouts hs
  | _ :: hs => handouts hs

def sharePart (who : Option Nat) (handed : List (Job × Option Nat)) : List Job :=
  (handed.filter (·.2 == who)).map Prod.fst

/-- What goes to `who`, in the order of the pushes. -/
def shareOf (hs : List Happening) (who : Option Nat) : List Job := sharePart who (handouts hs)

/-! ## One thing more happens -/

theorem firstPreparer_append (hs gs : List Happening) :
    firstPreparer (hs ++ gs) = (firstPreparer hs).or (firstPreparer gs) := by
  induction hs with
  | nil => rfl
  | cons x hs ih =>
    cases x with
    | prepare => rfl
    | push | step => exact ih

/-- Later happenings settle who takes what nobody has taken yet. -/
theorem handouts_append (hs gs : List Happening) :
    handouts (hs ++ gs) =
      (handouts hs).map (fun h => (h.1, h.2.or (firstPreparer gs))) ++ handouts gs := by
  induction hs with
  | nil => rfl
  | cons x hs ih =>
    cases x with
    | push job =>
      rw [List.cons_append, handouts, handouts, firstPreparer_append, ih]
      rfl
    | prepare | step => exact ih

theorem handouts_idle (hs gs : List Happening) (hg : firstPreparer gs = none) :
    handouts (hs ++ gs) = handouts hs ++ handouts gs := by
  have hsame : (fun h : Job × Option Nat => (h.1, h.2.or none)) = id :=
    funext fun h => congrArg (Prod.mk h.1) Option.or_none
  rw [handouts_append, hg, hsame, List.map_id]

theorem sharePart_append (who : Option Nat) (hs gs : List (Job × Option Nat)) :
    sharePart who (hs ++ gs) = sharePart who hs ++ sharePart who gs := by
  rw [sharePart, List.filter_append, List.map_append]
  rfl

theorem sharePart_all (who : Option Nat) (jobs : List Job) :
    sharePart who (jobs.map (·, who)) = jobs := by
  have hall : ∀ p ∈ jobs.map (·, who), (p.2 == who) = true := by
    intro p hp
    obtain ⟨job, _, rfl⟩ := List.mem_map.mp hp
    exact beq_self_eq_true who
  rw [sharePart, List.filter_eq_self.mpr hall, List.map_map]
  exact List.map_id jobs

theorem sharePart_none {who : Option Nat} {handed : List (Job × Option Nat)}
    (h : ∀ p ∈ handed, p.2 ≠ who) : sharePart who handed = [] := by
  have hfilter : handed.filter (·.2 == who) = [] :=
    List.filter_eq_nil_iff.mpr fun p hp => mt beq_iff_eq.mp (h p hp)
  rw [sharePart, hfilter]
  rfl

/-! ## Steps of a fleet -/

variable {configs : List Config} {f g : Fleet} {x : Happening} {hs : List Happening}

inductive Stepped (f : Fleet) : Happening → Fleet → Prop
  | push (job : Job) : Stepped f (.push job) { f with pending := f.pending.push job }
  | prepare {i : Nat} {w v : Worker} (hw : f.workers[i]? = some w)
      (hv : w.step (.prepare f.pending.jobs) = some v) :
      Stepped f (.prepare i) { pending := {}, workers := f.workers.set i v }
  | step {i : Nat} {l : Label} {w v : Worker} (hl : l.isPrepare = false)
      (hw : f.workers[i]? = some w) (hv : w.step l = some v) :
      Stepped f (.step i l) { f with workers := f.workers.set i v }

theorem stepWorker_eq_some {i : Nat} {l : Label} (h : f.stepWorker i l = some g) :
    ∃ w v, f.workers[i]? = some w ∧ w.step l = some v ∧
      g = { f with workers := f.workers.set i v } := by
  unfold stepWorker at h
  split at h
  · cases h
  · rename_i w hw
    obtain ⟨v, hv, rfl⟩ := Option.map_eq_some_iff.mp h
    exact ⟨w, v, hw, hv, rfl⟩

theorem step_spec (h : f.step x = some g) : Stepped f x g := by
  cases x with
  | push job =>
    cases h
    exact .push job
  | prepare i =>
    obtain ⟨g', hg, rfl⟩ := Option.map_eq_some_iff.mp h
    obtain ⟨w, v, hw, hv, rfl⟩ := stepWorker_eq_some hg
    exact .prepare hw hv
  | step i l =>
    have hstep : l.isPrepare = false ∧ f.stepWorker i l = some g := by
      cases l with
      | prepare => cases h
      | _ => exact ⟨rfl, h⟩
    obtain ⟨w, v, hw, hv, rfl⟩ := stepWorker_eq_some hstep.2
    exact .step hstep.1 hw hv

/-! ## The accounts -/

/-- Worker `i` came to where it is by a run of its own, in which it took over its share. -/
def Account (configs : List Config) (hs : List Happening) (i : Nat) (w : Worker) : Prop :=
  ∃ config ls, configs[i]? = some config ∧ (Worker.create config 0).steps ls = some w ∧
    Worker.takenOver ls = shareOf hs (some i) ∧
    ls.countP Label.isPrepare = hs.countP (Happening.prepares i)

/-- The queue holds what was pushed since a loop last prepared; all before that was taken. -/
structure Accounts (configs : List Config) (hs : List Happening) (f : Fleet) : Prop where
  size : f.workers.length = configs.length
  pushed : ∃ taken, handouts hs = taken ++ f.pending.jobs.map (·, none) ∧
    ∀ h ∈ taken, ∃ i < configs.length, h.2 = some i
  worker : ∀ i w, f.workers[i]? = some w → Account configs hs i w

section Account
variable {i : Nat} {w v : Worker} {l : Label}

theorem Account.stay (h : Account configs hs i w)
    (hshare : shareOf (hs ++ [x]) (some i) = shareOf hs (some i)) (hx : x.prepares i = false) :
    Account configs (hs ++ [x]) i w := by
  obtain ⟨config, ls, hc, hls, htaken, hcount⟩ := h
  refine ⟨config, ls, hc, hls, htaken.trans hshare.symm, ?_⟩
  rw [List.countP_append, List.countP_singleton, hx, hcount]
  rfl

theorem Account.step (h : Account configs hs i w) (hv : w.step l = some v)
    (hshare : shareOf (hs ++ [x]) (some i) = shareOf hs (some i) ++ l.pending)
    (hx : x.prepares i = l.isPrepare) : Account configs (hs ++ [x]) i v := by
  obtain ⟨config, ls, hc, hls, htaken, hcount⟩ := h
  refine ⟨config, ls ++ [l], hc, ?_, ?_, ?_⟩
  · rw [Worker.steps_append, hls]
    exact (Worker.steps_single w l).trans hv
  · rw [Worker.takenOver, List.flatMap_append, List.flatMap_singleton, hshare, ← htaken]
    rfl
  · rw [List.countP_append, List.countP_append, List.countP_singleton, List.countP_singleton, hx,
      hcount]

end Account

/-- Only the worker that steps comes to another state. -/
theorem forall_set {P : Nat → Worker → Prop} {workers : List Worker} {i : Nat} {v : Worker}
    (hi : P i v) (hrest : ∀ j w, j ≠ i → workers[j]? = some w → P j w) :
    ∀ j w, (workers.set i v)[j]? = some w → P j w := by
  intro j w hw
  rw [List.getElem?_set] at hw
  split at hw
  · rename_i hij
    subst hij
    split at hw
    · cases hw
      exact hi
    · cases hw
  · rename_i hij
    exact hrest j w (Ne.symm hij) hw

namespace Accounts

theorem create (configs : List Config) : Accounts configs [] (create configs) where
  size := List.length_map _
  pushed := ⟨[], rfl, List.forall_mem_nil _⟩
  worker i w hw := by
    obtain ⟨config, hc, rfl⟩ := Option.map_eq_some_iff.mp (List.getElem?_map.symm.trans hw)
    exact ⟨config, [], hc, rfl, rfl, rfl⟩

theorem push (h : Accounts configs hs f) (job : Job) :
    Accounts configs (hs ++ [.push job]) { f with pending := f.pending.push job } where
  size := h.size
  pushed := by
    obtain ⟨taken, he, htaken⟩ := h.pushed
    refine ⟨taken, ?_, htaken⟩
    rw [handouts_idle _ _ rfl, he, List.append_assoc, Pending.push, List.map_append]
    rfl
  worker i w hw := by
    refine (h.worker i w hw).stay ?_ rfl
    rw [shareOf, handouts_idle _ _ rfl, sharePart_append]
    exact List.append_nil _

theorem step {i : Nat} {l : Label} {w v : Worker} (h : Accounts configs hs f)
    (hl : l.isPrepare = false) (hw : f.workers[i]? = some w) (hv : w.step l = some v) :
    Accounts configs (hs ++ [.step i l]) { f with workers := f.workers.set i v } := by
  have hsame : handouts (hs ++ [.step i l]) = handouts hs :=
    (handouts_idle _ _ rfl).trans (List.append_nil _)
  have hshare : ∀ who, shareOf (hs ++ [.step i l]) who = shareOf hs who := fun who =>
    congrArg (sharePart who) hsame
  refine ⟨(List.length_set ..).trans h.size, hsame ▸ h.pushed, forall_set ?_ ?_⟩
  · have hnone : l.pending = [] := by
      cases l with
      | prepare => cases hl
      | _ => rfl
    refine (h.worker i w hw).step hv ?_ hl.symm
    rw [hshare, hnone, List.append_nil]
  · exact fun j u _ hu => (h.worker j u hu).stay (hshare _) rfl

theorem prepare {i : Nat} {w v : Worker} (h : Accounts configs hs f) (hw : f.workers[i]? = some w)
    (hv : w.step (.prepare f.pending.jobs) = some v) :
    Accounts configs (hs ++ [.prepare i]) { pending := {}, workers := f.workers.set i v } := by
  obtain ⟨taken, he, htaken⟩ := h.pushed
  have hkeep : taken.map (fun h => (h.1, h.2.or (some i))) = taken := by
    refine (List.map_congr_left fun h hh => ?_).trans (List.map_id taken)
    obtain ⟨j, _, hj⟩ := htaken h hh
    rw [id, hj, Option.some_or, ← hj]
  have hnew : handouts (hs ++ [.prepare i]) = taken ++ f.pending.jobs.map (·, some i) := by
    rw [handouts_append, he, List.map_append, List.map_map]
    exact (List.append_nil _).trans (congrArg (· ++ _) hkeep)
  have hshare : ∀ j, shareOf hs (some j) = sharePart (some j) taken := by
    intro j
    have hrest : sharePart (some j) (f.pending.jobs.map (·, none)) = [] := by
      refine sharePart_none fun p hp => ?_
      obtain ⟨job, _, rfl⟩ := List.mem_map.mp hp
      exact nofun
    rw [shareOf, he, sharePart_append, hrest, List.append_nil]
  refine ⟨(List.length_set ..).trans h.size, ⟨_, hnew.trans (List.append_nil _).symm, ?_⟩,
    forall_set ?_ ?_⟩
  · refine List.forall_mem_append.mpr ⟨htaken, fun p hp => ?_⟩
    obtain ⟨job, _, rfl⟩ := List.mem_map.mp hp
    exact ⟨i, h.size ▸ (List.getElem?_eq_some_iff.mp hw).1, rfl⟩
  · refine (h.worker i w hw).step hv ?_ (beq_self_eq_true i)
    rw [hshare, shareOf, hnew, sharePart_append, sharePart_all]
    rfl
  · intro j u hj hu
    refine (h.worker j u hu).stay ?_ (beq_eq_false_iff_ne.mpr (Ne.symm hj))
    have hrest : sharePart (some j) (f.pending.jobs.map (·, some i)) = [] := by
      refine sharePart_none fun p hp => ?_
      obtain ⟨job, _, rfl⟩ := List.mem_map.mp hp
      exact fun h => hj (Option.some.inj h).symm
    rw [hshare, shareOf, hnew, sharePart_append, hrest, List.append_nil]

end Accounts

theorem steps_append (f : Fleet) (hs gs : List Happening) :
    f.steps (hs ++ gs) = (f.steps hs).bind (·.steps gs) :=
  List.foldlM_append

theorem steps_single (f : Fleet) (x : Happening) : f.steps [x] = f.step x := by
  change (f.step x).bind _ = _
  cases f.step x <;> rfl

theorem accounts_of_steps (h : (create configs).steps hs = some f) : Accounts configs hs f := by
  induction hs using List.reverseRecOn generalizing f with
  | nil =>
    cases h
    exact .create configs
  | append_singleton hs x ih =>
    rw [steps_append] at h
    obtain ⟨g, hg, hx⟩ := Option.bind_eq_some_iff.mp h
    cases step_spec ((steps_single g x).symm.trans hx) with
    | push job => exact (ih hg).push job
    | prepare hw hv => exact (ih hg).prepare hw hv
    | step hl hw hv => exact (ih hg).step hl hw hv

/-! ## The fleet -/

/-- Whatever happens in a fleet: every pushed job goes to the worker whose loop is the first to
prepare after the push, and stays in the queue while none does; a loop prepares at most once, and
runs from then on until a shutdown; and what it took over is dispatched in the order of the pushes,
each job once and before all that its worker accepted, the next one in every round. -/
theorem pending_handed_out_once (h : (create configs).steps hs = some f) :
    f.pending.jobs = shareOf hs none ∧
    (∀ p ∈ handouts hs, ∀ i, p.2 = some i → ∃ w, f.workers[i]? = some w) ∧
    ∀ i w, f.workers[i]? = some w →
      hs.countP (Happening.prepares i) ≤ 1 ∧
      (hs.countP (Happening.prepares i) = 1 →
        w.loop.stage = .running ∨ w.interrupted = true) ∧
      ∃ t rest later, w.ReplaysFirst (shareOf hs (some i)) t rest later := by
  have ha := accounts_of_steps h
  obtain ⟨taken, he, htaken⟩ := ha.pushed
  refine ⟨?_, fun p hp i hi => ?_, fun i w hw => ?_⟩
  · have hnone : sharePart none taken = [] := by
      refine sharePart_none fun p hp => ?_
      obtain ⟨j, _, hj⟩ := htaken p hp
      exact hj ▸ nofun
    rw [shareOf, he, sharePart_append, hnone, sharePart_all]
    rfl
  · have hlt : i < f.workers.length := by
      rw [he] at hp
      rcases List.mem_append.mp hp with hp | hp
      · obtain ⟨j, hj, hpj⟩ := htaken p hp
        cases hi.symm.trans hpj
        exact ha.size ▸ hj
      · obtain ⟨job, _, rfl⟩ := List.mem_map.mp hp
        cases hi
    exact ⟨_, List.getElem?_eq_getElem hlt⟩
  · obtain ⟨config, ls, _, hls, hshare, hcount⟩ := ha.worker i w hw
    rw [← hcount, ← hshare]
    exact Worker.replays_first hls

/-- Of two workers the first takes over two jobs while a submission waits for it; a third job is
pushed after that. -/
def sharing : List Happening :=
  [.push (Worker.blankJob 1), .push (Worker.blankJob 2)] ++
    [.start, .enter, .point, .openLink, .opened, .submit (Worker.blankJob 4) .zero].map (.step 0) ++
    [.prepare 0, .push (Worker.blankJob 3)] ++
    [.lookAgain, .iterate, .dispatch ⟨true, false, true⟩, .iterate, .dispatch ⟨true, false, true⟩, .iterate,
      .dispatch ⟨true, false, true⟩].map (.step 0)

/-- The pending jobs are dispatched before the one that waited, and the third is left. -/
theorem pending_before_waiting :
    ∃ f w, (create [{}, {}]).steps sharing = some f ∧ f.workers[0]? = some w ∧
      w.handovers.map Handover.job = [.ofNat 1, .ofNat 2, .ofNat 4] ∧
      (shareOf sharing none).map Job.id = [.ofNat 3] ∧ f.pending.jobs = shareOf sharing none ∧
      ∃ t rest later, w.ReplaysFirst [Worker.blankJob 1, Worker.blankJob 2] t rest later := by
  have h : ∃ f w, (create [{}, {}]).steps sharing = some f ∧ f.workers[0]? = some w ∧
      w.handovers.map Handover.job = [.ofNat 1, .ofNat 2, .ofNat 4] :=
    ⟨_, _, rfl, rfl, rfl⟩
  obtain ⟨f, w, hf, hw, hjobs⟩ := h
  obtain ⟨hleft, _, hworker⟩ := pending_handed_out_once hf
  exact ⟨f, w, hf, hw, hjobs, rfl, hleft, (hworker 0 w hw).2.2⟩

end Outbox.Fleet
