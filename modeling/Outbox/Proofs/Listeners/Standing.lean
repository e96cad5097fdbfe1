import Outbox.Proofs.Listeners.Roll

/-! # Who is registered

A registry is a set and does not count, while a run remembers only whether it registered its job's
listener itself. So a listener that is wanted, because the last call of a caller asked for it or
because a live run brings it, is lost when the run that had registered it ends before them; the next
call or the next run that brings it registers it again. `Standing` says which of these things has
happened to a listener. Main statement: `registered_iff_wanted_and_not_lost`. -/
namespace Outbox
set_option autoImplicit false

namespace Worker

/-! ## What a history says of a listener -/

/-- The run that had registered the listener ends. -/
def Moment.Withdraws (m : Moment) (lane : Lane) (name : ListenerName) : Prop :=
  ∃ s ∈ m.source.stints, s.Registered lane name ∧ ∀ q ∈ m.target.stints, q.run ≠ s.run

section
variable (h : List Moment) (w : Worker) (lane : Lane) (name : ListenerName)

/-- The last call of a caller about the listener was to add it. -/
def Kept : Prop := (h.filterMap (·.label.call? lane name)).getLast? = some true

/-- A caller has removed the listener since the run began. -/
def Dismissed (run : Nat) : Prop :=
  ∃ m ∈ h, m.label = .removeListener lane name ∧ run ≤ m.source.lastRun

/-- Somebody expects the listener to be registered: callers, or a live run that brings it. -/
def Wanted : Prop :=
  Kept h lane name ∨ ∃ s ∈ w.stints, s.Brings lane name ∧ ¬ Dismissed h lane name s.run

/-- The run that had registered the listener ended when `last` was the youngest run, and no caller
has added the listener since. -/
def Withdrawn (last : Nat) : Prop :=
  ∃ before m after, h = before ++ m :: after ∧ m.Withdraws lane name ∧ m.target.lastRun = last ∧
    ∀ x ∈ after, x.label ≠ .addListener lane name

/-- The listener was withdrawn, and no live run that brings it has begun since. -/
def Lost : Prop :=
  ∃ last, Withdrawn h lane name last ∧ ∀ s ∈ w.stints, s.Brings lane name → s.run ≤ last

end

variable {config : Config} {h : List Moment} {m : Moment} {w v : Worker} {lane : Lane}
  {name : ListenerName}

/-! ## One more step -/

theorem kept_concat : Kept (h ++ [m]) lane name ↔
    m.label.call? lane name = some true ∨ (m.label.call? lane name = none ∧ Kept h lane name) := by
  unfold Kept
  rw [List.filterMap_append]
  cases hc : m.label.call? lane name with
  | none => simp [hc]
  | some b => simp [hc]

theorem dismissed_concat {run : Nat} : Dismissed (h ++ [m]) lane name run ↔
    Dismissed h lane name run ∨ (m.label = .removeListener lane name ∧ run ≤ m.source.lastRun) := by
  simp only [Dismissed, List.mem_append, List.mem_singleton, or_and_right, exists_or,
    exists_eq_left]

theorem withdrawn_concat {last : Nat} : Withdrawn (h ++ [m]) lane name last ↔
    (m.Withdraws lane name ∧ m.target.lastRun = last) ∨
      (Withdrawn h lane name last ∧ m.label ≠ .addListener lane name) := by
  constructor
  · rintro ⟨before, x, after, he, hw, hlast, hafter⟩
    rcases List.eq_nil_or_concat' after with rfl | ⟨rest, y, rfl⟩
    · obtain ⟨rfl, hx⟩ := List.append_inj' he rfl
      obtain rfl := (List.singleton_inj.mp hx)
      exact .inl ⟨hw, hlast⟩
    · rw [← List.cons_append, ← List.append_assoc] at he
      obtain ⟨rfl, hy⟩ := List.append_inj' he rfl
      obtain rfl := (List.singleton_inj.mp hy)
      obtain ⟨hrest, hy⟩ := List.forall_mem_append.mp hafter
      exact .inr ⟨⟨before, x, rest, rfl, hw, hlast, hrest⟩, hy m List.mem_cons_self⟩
  · rintro (⟨hw, hlast⟩ | ⟨⟨before, x, after, rfl, hw, hlast, hafter⟩, hm⟩)
    · exact ⟨h, m, [], rfl, hw, hlast, List.forall_mem_nil _⟩
    · refine ⟨before, x, after ++ [m], ?_, hw, hlast, ?_⟩
      · rw [List.append_assoc, List.cons_append]
      · exact List.forall_mem_append.mpr ⟨hafter, List.forall_mem_singleton.mpr hm⟩

theorem not_withdraws (hsub : m.source.stints ⊆ m.target.stints) : ¬ m.Withdraws lane name :=
  fun ⟨s, hs, _, hgone⟩ => hgone s (hsub hs) rfl

theorem not_withdraws_of_eq (he : m.target.stints = m.source.stints) :
    ¬ m.Withdraws lane name := by
  apply not_withdraws
  rw [he]
  exact List.Subset.refl _

theorem withdraws_leave (hw : m.source.roll.Sound) {s : Stint} {before after : List Stint}
    (hs : m.source.stints = before ++ s :: after) (ht : m.target.stints = before ++ after) :
    m.Withdraws lane name ↔ s.Registered lane name := by
  have hmem : s ∈ m.source.stints := hs ▸ List.mem_append_right _ List.mem_cons_self
  constructor
  · rintro ⟨q, hq, hr, hgone⟩
    have hrest : q ∉ before ++ after := fun hq' => hgone q (ht ▸ hq') rfl
    rw [hs, List.mem_append, List.mem_cons] at hq
    rw [List.mem_append, not_or] at hrest
    rcases hq with hq | rfl | hq
    · exact absurd hq hrest.1
    · exact hr
    · exact absurd hq hrest.2
  · intro hr
    refine ⟨s, hmem, hr, fun q hq he => ?_⟩
    have hn : (m.source.stints.map Stint.run).Nodup := hw.nodup
    rw [hs, List.map_append, List.map_cons, List.nodup_middle, List.nodup_cons, ← List.map_append]
      at hn
    rw [ht] at hq
    exact hn.1 (List.mem_map.mpr ⟨q, hq, he⟩)

/-! ## What has happened to a listener -/

inductive Standing (h : List Moment) (w : Worker) (lane : Lane) (name : ListenerName) : Prop
  | kept (hm : name ∈ (w.listeners.on lane).members) (hk : Kept h lane name)
      (hw : ∀ last, ¬ Withdrawn h lane name last)
  | brought (s : Stint) (hm : name ∈ (w.listeners.on lane).members) (hs : s ∈ w.stints)
      (hr : s.Registered lane name) (hd : ¬ Dismissed h lane name s.run)
      (hw : ∀ last, Withdrawn h lane name last → last < s.run)
  | unwanted (hm : name ∉ (w.listeners.on lane).members) (hn : ¬ Wanted h w lane name)
  | lost (hm : name ∉ (w.listeners.on lane).members) (hl : Lost h w lane name)

/-- The runs that a history speaks of have begun. -/
def Past (h : List Moment) (w : Worker) : Prop :=
  ∀ m ∈ h, m.source.lastRun ≤ w.lastRun ∧ m.target.lastRun ≤ w.lastRun

namespace Standing
variable {l : Label}

/-- A step that has nothing to do with the listener. -/
theorem carry (hs : Standing h w lane name) (hc : l.call? lane name = none)
    (hn : ¬ Moment.Withdraws ⟨w, l, v⟩ lane name)
    (hmem : name ∈ (v.listeners.on lane).members ↔ name ∈ (w.listeners.on lane).members)
    (hstay : ∀ s ∈ w.stints, s.Registered lane name → s ∈ v.stints)
    (hnew : name ∉ (w.listeners.on lane).members →
      ∀ s ∈ v.stints, s.Brings lane name → s ∈ w.stints) :
    Standing (h ++ [⟨w, l, v⟩]) v lane name := by
  obtain ⟨hadd, hremove⟩ := Label.ne_of_call? hc
  have hkept : Kept (h ++ [⟨w, l, v⟩]) lane name ↔ Kept h lane name := by
    simp [kept_concat, hc]
  have hdismissed : ∀ run,
      Dismissed (h ++ [⟨w, l, v⟩]) lane name run ↔ Dismissed h lane name run := by
    simp [dismissed_concat, hremove]
  have hwithdrawn : ∀ last,
      Withdrawn (h ++ [⟨w, l, v⟩]) lane name last ↔ Withdrawn h lane name last := by
    simp [withdrawn_concat, hadd, hn]
  cases hs with
  | kept hm hk hw =>
    exact .kept (hmem.mpr hm) (hkept.mpr hk) fun last hl => hw last ((hwithdrawn last).mp hl)
  | brought s hm hs hr hd hw =>
    exact .brought s (hmem.mpr hm) (hstay s hs hr) hr (hd ∘ (hdismissed s.run).mp)
      fun last hl => hw last ((hwithdrawn last).mp hl)
  | unwanted hm hn =>
    refine .unwanted (hm ∘ hmem.mp) ?_
    rintro (hk | ⟨s, hs, hb, hd⟩)
    · exact hn (.inl (hkept.mp hk))
    · exact hn (.inr ⟨s, hnew hm s hs hb, hb, hd ∘ (hdismissed s.run).mpr⟩)
  | lost hm hl =>
    obtain ⟨last, hgone, hold⟩ := hl
    exact .lost (hm ∘ hmem.mp) ⟨last, (hwithdrawn last).mpr hgone,
      fun s hs hb => hold s (hnew hm s hs hb) hb⟩

/-- The runs stay as they are, and so does the listener. -/
theorem carry_runs (hs : Standing h w lane name) (hc : l.call? lane name = none)
    (hstints : v.stints = w.stints)
    (hmem : name ∈ (v.listeners.on lane).members ↔ name ∈ (w.listeners.on lane).members) :
    Standing (h ++ [⟨w, l, v⟩]) v lane name := by
  refine hs.carry hc (not_withdraws_of_eq hstints) hmem (fun s hs _ => ?_) fun _ s hs _ => ?_
  · rwa [hstints]
  · rwa [← hstints]

theorem add (hmem : name ∈ (v.listeners.on lane).members) (hstints : v.stints = w.stints) :
    Standing (h ++ [⟨w, .addListener lane name, v⟩]) v lane name := by
  refine .kept hmem ?_ fun last hl => ?_
  · exact kept_concat.mpr (.inl (if_pos ⟨rfl, rfl⟩))
  · rcases withdrawn_concat.mp hl with ⟨hw, _⟩ | ⟨_, hne⟩
    · exact not_withdraws_of_eq hstints hw
    · exact hne rfl

/-- Every live run began before the call. -/
theorem remove (hw : w.roll.Sound) (hmem : name ∉ (v.listeners.on lane).members)
    (hstints : v.stints = w.stints) :
    Standing (h ++ [⟨w, .removeListener lane name, v⟩]) v lane name := by
  refine .unwanted hmem ?_
  rintro (hk | ⟨s, hs, _, hd⟩)
  · rcases kept_concat.mp hk with hc | ⟨hc, _⟩ <;> simp [Label.call?] at hc
  · rw [hstints] at hs
    exact hd (dismissed_concat.mpr (.inr ⟨rfl, hw.run_le s hs⟩))

/-- A run that finds its listener absent registers it. -/
theorem enter (hpast : Past h w) {view : View} {s : Stint} (hrun : s.run = w.lastRun + 1)
    (hr : s.Registered lane name) (hmem : name ∈ (v.listeners.on lane).members)
    (hv : v.stints = w.stints ++ [s]) :
    Standing (h ++ [⟨w, .dispatch view, v⟩]) v lane name := by
  have hsub : w.stints ⊆ v.stints := hv ▸ List.subset_append_left _ _
  refine .brought s hmem (hv ▸ List.mem_append_right _ List.mem_cons_self) hr ?_ fun last hl => ?_
  · intro hd
    rcases dismissed_concat.mp hd with ⟨m, hm, _, hle⟩ | ⟨hl, _⟩
    · have hbefore := (hpast m hm).1
      omega
    · cases hl
  · rcases withdrawn_concat.mp hl with ⟨hw, _⟩ | ⟨⟨before, m, after, rfl, _, hlast, _⟩, _⟩
    · exact absurd hw (not_withdraws hsub)
    · have hbefore := (hpast m (List.mem_append_right _ List.mem_cons_self)).2
      omega

/-- The run that had registered the listener ends; every live run began before. -/
theorem leave (hv : v.roll.Sound) (hw : Moment.Withdraws ⟨w, l, v⟩ lane name)
    (hmem : name ∉ (v.listeners.on lane).members) : Standing (h ++ [⟨w, l, v⟩]) v lane name :=
  .lost hmem ⟨v.lastRun, withdrawn_concat.mpr (.inl ⟨hw, rfl⟩), fun s hs _ => hv.run_le s hs⟩

theorem step (hw : Reachable config w) (hpast : Past h w) (hs : Standing h w lane name)
    (hl : w.step l = some v) : Standing (h ++ [⟨w, l, v⟩]) v lane name := by
  have hsound := roll_sound hw
  have hsound' := roll_sound (hw.step hl)
  have hm := step_roll (owned hw) hl
  generalize hb : v.roll = b at hm
  have hlisteners : v.listeners = b.listeners := congrArg Roll.listeners hb
  have hstints : v.stints = b.stints := congrArg Roll.stints hb
  cases hm with
  | stay hc =>
    refine hs.carry_runs (Label.call?_of_not_isCall hc lane name) hstints ?_
    rw [hlisteners]
    rfl
  | add lane' name' =>
    have hmem := Listeners.mem_add w.listeners lane lane' name name'
    change v.listeners = (w.listeners.add lane' name').2 at hlisteners
    rw [← hlisteners] at hmem
    by_cases hself : lane' = lane ∧ name' = name
    · obtain ⟨rfl, rfl⟩ := hself
      exact .add (hmem.mpr (.inl ⟨rfl, rfl⟩)) hstints
    · exact hs.carry_runs (if_neg hself) hstints (hmem.trans (or_iff_right hself))
  | remove lane' name' =>
    have hmem := Listeners.mem_remove w.listeners lane lane' name name'
    change v.listeners = (w.listeners.remove lane' name').2 at hlisteners
    rw [← hlisteners] at hmem
    by_cases hself : lane' = lane ∧ name' = name
    · obtain ⟨rfl, rfl⟩ := hself
      exact .remove hsound (fun hn => (hmem.mp hn).1 ⟨rfl, rfl⟩) hstints
    · exact hs.carry_runs (if_neg hself) hstints (hmem.trans (and_iff_right hself))
  | enter view s hrun hreg =>
    have hstints : v.stints = w.stints ++ [s] := hstints
    have hmem := Listeners.mem_enlist w.listeners lane s.lane name s.brings
    change v.listeners = (w.listeners.enlist s.lane s.brings).2 at hlisteners
    rw [← hlisteners] at hmem
    -- Only a run that finds its listener absent registers it; any other leaves things as they are.
    by_cases hnew : s.Brings lane name ∧ name ∉ (w.listeners.on lane).members
    · obtain ⟨⟨rfl, hb⟩, hn⟩ := hnew
      have hr : s.Registered s.lane name :=
        ⟨rfl, hreg.trans ((Listeners.enlist_eq_some _ _ _).mpr ⟨hb, hn⟩)⟩
      exact .enter hpast hrun hr (hmem.mpr (.inl ⟨rfl, hb⟩)) hstints
    · refine hs.carry rfl (not_withdraws (hstints ▸ List.subset_append_left _ _)) ?_ ?_ ?_
      · constructor
        · intro hv
          by_contra hn
          exact hnew ⟨(hmem.mp hv).resolve_right hn, hn⟩
        · exact hmem.mpr ∘ .inr
      · exact fun q hq _ => hstints ▸ List.mem_append_left _ hq
      · intro hn q hq hbrings
        rw [hstints, List.mem_append, List.mem_singleton] at hq
        rcases hq with hq | rfl
        · exact hq
        · exact absurd ⟨hbrings, hn⟩ hnew
  | leave s before after hsplit =>
    have hstints : v.stints = before ++ after := hstints
    have hsplit : w.stints = before ++ s :: after := hsplit
    have hmem := Listeners.mem_strike w.listeners lane s.lane name s.registered
    change v.listeners = w.listeners.strike s.lane s.registered at hlisteners
    rw [← hlisteners] at hmem
    have hgone : Moment.Withdraws ⟨w, .advance s.run .none, v⟩ lane name ↔
        s.Registered lane name := withdraws_leave hsound hsplit hstints
    by_cases hr : s.Registered lane name
    · exact .leave hsound' (hgone.mpr hr) fun hn => (hmem.mp hn).1 hr
    · refine hs.carry rfl (hr ∘ hgone.mp) (hmem.trans (and_iff_right hr)) ?_ ?_
      · intro q hq hq'
        rw [hsplit, List.mem_append, List.mem_cons] at hq
        rw [hstints, List.mem_append]
        rcases hq with hq | rfl | hq
        · exact .inl hq
        · exact absurd hq' hr
        · exact .inr hq
      · intro _ q hq _
        rw [hstints, List.mem_append] at hq
        rw [hsplit, List.mem_append, List.mem_cons]
        exact hq.imp_right .inr

end Standing

theorem standing_of_steps {ls : List Label} (hs : (create config 0).steps ls = some w) (lane : Lane)
    (name : ListenerName) : Standing ((create config 0).history ls) w lane name := by
  have hall : Past ((create config 0).history ls) w ∧
      Standing ((create config 0).history ls) w lane name := by
    refine history_induction (P := fun h w => Past h w ∧ Standing h w lane name) ?_ ?_ hs
    · refine ⟨List.forall_mem_nil _, .unwanted ?_ ?_⟩
      · cases lane <;> exact List.not_mem_nil
      · rintro (hk | ⟨s, hs, _⟩)
        · cases hk
        · cases hs
    · intro h u l v hu ⟨hpast, hstanding⟩ hl
      have hle := (step_roll (owned hu) hl).lastRun_le
      refine ⟨List.forall_mem_append.mpr ⟨fun m hm => ?_, ?_⟩, hstanding.step hu hpast hl⟩
      · obtain ⟨hsource, htarget⟩ := hpast m hm
        exact ⟨Nat.le_trans hsource hle, Nat.le_trans htarget hle⟩
      · exact List.forall_mem_singleton.mpr ⟨hle, Nat.le_refl _⟩
  exact hall.2

theorem Standing.mem_iff (hs : Standing h w lane name) (hw : w.roll.Sound) :
    name ∈ (w.listeners.on lane).members ↔ Wanted h w lane name ∧ ¬ Lost h w lane name := by
  cases hs with
  | kept hm hk hw =>
    exact iff_of_true hm ⟨.inl hk, fun ⟨last, hl, _⟩ => hw last hl⟩
  | brought s hm hs hr hd hgone =>
    have hb := hw.brought s hs lane name hr
    refine iff_of_true hm ⟨.inr ⟨s, hs, hb, hd⟩, fun ⟨last, hl, hold⟩ => ?_⟩
    exact Nat.lt_irrefl _ (Nat.lt_of_lt_of_le (hgone last hl) (hold s hs hb))
  | unwanted hm hn => exact iff_of_false hm fun hw => hn hw.1
  | lost hm hl => exact iff_of_false hm fun hw => hw.2 hl

/-- In every state that a run comes to, a listener is registered exactly if it is wanted and not
lost: callers asked for it last, or a live run brings it and nobody has removed it since; and since
the run that had registered it last ended, if one did, a caller has added it or a run that brings
it and is still live has begun. -/
theorem registered_iff_wanted_and_not_lost {ls : List Label}
    (hs : (create config 0).steps ls = some w) (lane : Lane) (name : ListenerName) :
    name ∈ (w.listeners.on lane).members ↔
      Wanted ((create config 0).history ls) w lane name ∧
        ¬ Lost ((create config 0).history ls) w lane name :=
  (standing_of_steps hs lane name).mem_iff (roll_sound ⟨ls, hs⟩)

def accompanied (n : Nat) : Job where
  id := .ofNat n
  isAsync := true
  listener := some "own"
  plan := .finish (.ok ⟨"done"⟩)

/-- Two executors share a listener, a caller adds it too, and the first executor ends. -/
def firstLeaves : List Label :=
  opening ++ launching (accompanied 1) ++ launching (accompanied 2) ++
    [.addListener .detached "own"] ++ advancing 1 7

/-- The caller and the second executor both expect the listener to be registered, and it is lost. -/
theorem shared_listener_lost :
    ∃ w, (create {} 0).steps firstLeaves = some w ∧
      Kept ((create {} 0).history firstLeaves) .detached "own" ∧
      w.runs.map (fun r => (r.id, r.job.listener)) = [(2, some "own")] ∧
      "own" ∉ (w.listeners.on .detached).members ∧
      Lost ((create {} 0).history firstLeaves) w .detached "own" := by
  have h : ∃ w, (create {} 0).steps firstLeaves = some w ∧
      Kept ((create {} 0).history firstLeaves) .detached "own" ∧
      w.runs.map (fun r => (r.id, r.job.listener)) = [(2, some "own")] ∧
      (w.listeners.on .detached).members = [] := ⟨_, rfl, rfl, rfl, rfl⟩
  obtain ⟨w, hs, hk, hruns, hnone⟩ := h
  have habsent : "own" ∉ (w.listeners.on .detached).members := by
    rw [hnone]
    exact List.not_mem_nil
  refine ⟨w, hs, hk, hruns, habsent, ?_⟩
  by_contra hl
  exact habsent ((registered_iff_wanted_and_not_lost hs .detached "own").mpr ⟨.inl hk, hl⟩)

end Worker

end Outbox
