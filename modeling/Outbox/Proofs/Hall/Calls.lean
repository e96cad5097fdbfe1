import Outbox.Hall

/-! # The calls of a broadcast

A broadcast calls one member after the other, and each of them may change the registries before the
next is called. Whom it calls was settled when it began. `broadcasts_iff` takes a broadcast apart
into its calls, whatever the listeners do and however registries are nested; a broadcast within it
is taken apart in the same way, with the members that its own registry has when it is called. -/
namespace Outbox.Hall
set_option autoImplicit false

variable {σ : Type} {behave : Behaviour σ} {n : Notice} {name : String} {depth : Nat}
variable {v : Bool} {h h' : Hall σ}

/-! ## What is left of the registries -/

@[simp] theorem isRegistry_note (h : Hall σ) (r m q : String) :
    (h.note r m n).isRegistry q = h.isRegistry q := rfl

theorem lookup_setRegistry (h : Hall σ) (name q : String) (r : Registry String) :
    (h.setRegistry name r).registries.lookup q =
      (h.registries.lookup q).map fun r' => if q = name then r else r' := by
  unfold setRegistry
  induction h.registries with
  | nil => rfl
  | cons e l ih =>
    obtain ⟨k, r'⟩ := e
    simp only [List.map_cons, List.lookup_cons]
    by_cases hq : q = k
    · subst hq
      by_cases hk : q = name <;> simp [hk]
    · have hqk : (q == k) = false := beq_eq_false_iff_ne.mpr hq
      by_cases hk : k = name
      · subst hk
        simpa only [if_true, List.lookup_cons, hqk] using ih
      · simpa only [hk, if_false, List.lookup_cons, hqk] using ih

/-- A name is that of a registry, or nothing is registered under it. -/
theorem registry_cases (h : Hall σ) (q : String) :
    h.registry q = {} ∨ (q, h.registry q) ∈ h.registries := by
  unfold registry
  cases hl : h.registries.lookup q with
  | none => exact .inl rfl
  | some r =>
    obtain ⟨before, after, hsplit, _⟩ := List.lookup_eq_some_iff.mp hl
    exact .inr (by simp [hsplit])

@[simp] theorem isRegistry_setRegistry (h : Hall σ) (name q : String) (r : Registry String) :
    (h.setRegistry name r).isRegistry q = h.isRegistry q := by
  simp [isRegistry, lookup_setRegistry]

theorem members_setRegistry (h : Hall σ) (name q : String) (r : Registry String) :
    ((h.setRegistry name r).registry q).members = (h.registry q).members ∨
      ((h.setRegistry name r).registry q).members = r.members := by
  unfold registry
  rw [lookup_setRegistry]
  cases h.registries.lookup q with
  | none => exact .inl rfl
  | some r' =>
    by_cases hq : q = name
    · exact .inr (by simp [hq])
    · exact .inl (by simp [hq])

theorem registry_setRegistry_of_ne {h : Hall σ} {name q : String} {r : Registry String}
    (hq : q ≠ name) : (h.setRegistry name r).registry q = h.registry q := by
  unfold registry
  rw [lookup_setRegistry]
  simp [hq]

/-- Whatever is kept by the single asks and by what is remembered is kept by all that a listener
does. -/
theorem carryOut_keeps {P : Hall σ → Prop} (hmemory : ∀ h s, P h → P { h with memory := s })
    (hask : ∀ h a, P h → P (h.perform a).2) (r : Reaction σ) (hp : P h) : P (carryOut r h).2 := by
  induction r generalizing h with
  | vote v s => exact hmemory h s hp
  | ask a rest ih => exact ih (h.perform a).1 (hask h a hp)

/-! ## Calls -/

/-- One member is called: the hall as the call finds it and as it leaves it. -/
structure Call (σ : Type) where
  member : String
  before : Hall σ
  answer : Bool
  after : Hall σ

/-- Each call finds the hall as the one before it has left it. -/
def Follow : Hall σ → List (Call σ) → Hall σ → Prop
  | h, [], h' => h' = h
  | h, c :: cs, h' => c.before = h ∧ Follow c.after cs h'

theorem Follow.append {cs ds : List (Call σ)} {i : Hall σ} (hc : Follow h cs i)
    (hd : Follow i ds h') : Follow h (cs ++ ds) h' := by
  induction cs generalizing h with
  | nil =>
    cases hc
    exact hd
  | cons c cs ih =>
    obtain ⟨rfl, hc⟩ := hc
    exact ⟨rfl, ih hc⟩

theorem Follow.single (c : Call σ) : Follow c.before [c] c.after := ⟨rfl, rfl⟩

theorem Follow.upTo {cs ds : List (Call σ)} {c : Call σ} (hf : Follow h (cs ++ c :: ds) h') :
    Follow h cs c.before := by
  induction cs generalizing h with
  | nil => exact hf.1
  | cons b cs ih => exact ⟨hf.1, ih hf.2⟩

/-- What a broadcast comes to, if it comes to an end. -/
def Broadcasts (behave : Behaviour σ) (name : String) (n : Notice) (h : Hall σ) (v : Bool)
    (h' : Hall σ) : Prop :=
  ∃ depth, broadcast behave depth name n h = some (v, h')

/-- A listener does what it does with the notice; a registry broadcasts it in its turn. -/
def Call.Holds (behave : Behaviour σ) (name : String) (n : Notice) (c : Call σ) : Prop :=
  let told := c.before.note name c.member n
  if c.before.isRegistry c.member then
    Broadcasts behave c.member n told c.answer c.after
  else
    (c.answer, c.after) = carryOut (behave c.member n c.before.memory) told

/-- The same when registries are nested no deeper than `depth`. -/
def Call.HoldsWithin (behave : Behaviour σ) (name : String) (n : Notice) (depth : Nat)
    (c : Call σ) : Prop :=
  tell behave (fun m h => broadcast behave depth m n h) name n c.before c.member =
    some (c.answer, c.after)

/-- The induction runs over the members that are still to be called. -/
theorem foldlM_calls {members : List String} {u : Bool}
    {call : Hall σ → String → Option (Bool × Hall σ)} :
    members.foldlM (fun (a : Bool × Hall σ) m => do
        let (w, h) ← call a.2 m
        return (a.1 || w, h)) (u, h) = some (v, h') ↔
      ∃ calls : List (Call σ), calls.map Call.member = members ∧ Follow h calls h' ∧
        (∀ c ∈ calls, call c.before c.member = some (c.answer, c.after)) ∧
        v = (u || calls.any Call.answer) := by
  induction members generalizing u h with
  | nil =>
    constructor
    · intro heq
      cases heq
      exact ⟨[], rfl, rfl, by simp, by simp⟩
    · rintro ⟨calls, hmap, hfollow, _, rfl⟩
      obtain rfl := List.map_eq_nil_iff.mp hmap
      cases hfollow
      simp
  | cons m members ih =>
    rw [List.foldlM_cons]
    cases hcall : call h m with
    | none =>
      simp only [Option.bind_eq_bind, Option.bind_none, reduceCtorEq, false_iff]
      rintro ⟨calls, hmap, hfollow, hholds, _⟩
      obtain ⟨c, cs, rfl, rfl, _⟩ := List.map_eq_cons_iff.mp hmap
      obtain ⟨rfl, _⟩ := hfollow
      have hc := hholds c (by simp)
      rw [hcall] at hc
      cases hc
    | some a =>
      obtain ⟨w, i⟩ := a
      refine (ih (u := u || w) (h := i)).trans ?_
      constructor
      · rintro ⟨calls, rfl, hfollow, hholds, rfl⟩
        refine ⟨⟨m, h, w, i⟩ :: calls, rfl, ⟨rfl, hfollow⟩, ?_, by simp [Bool.or_assoc]⟩
        exact List.forall_mem_cons.mpr ⟨hcall, hholds⟩
      · rintro ⟨calls, hmap, hfollow, hholds, rfl⟩
        obtain ⟨c, cs, rfl, rfl, rfl⟩ := List.map_eq_cons_iff.mp hmap
        obtain ⟨rfl, hfollow⟩ := hfollow
        obtain ⟨hc, hholds⟩ := List.forall_mem_cons.mp hholds
        rw [hcall] at hc
        cases hc
        exact ⟨cs, rfl, hfollow, hholds, by simp [Bool.or_assoc]⟩

theorem broadcast_succ_iff :
    broadcast behave (depth + 1) name n h = some (v, h') ↔
      ∃ calls : List (Call σ), calls.map Call.member = (h.registry name).members ∧
        Follow h calls h' ∧ (∀ c ∈ calls, c.HoldsWithin behave name n depth) ∧
        v = calls.any Call.answer := by
  refine foldlM_calls.trans ?_
  simp only [Bool.false_or, Call.HoldsWithin]

/-! ## Depth -/

theorem Call.HoldsWithin.of_broadcast {c : Call σ} {depth' : Nat}
    (hmono : ∀ m i w j, broadcast behave depth m n i = some (w, j) →
      broadcast behave depth' m n i = some (w, j))
    (hc : c.HoldsWithin behave name n depth) : c.HoldsWithin behave name n depth' := by
  unfold Call.HoldsWithin tell at hc ⊢
  by_cases hr : (c.before.note name c.member n).isRegistry c.member = true
  · simp only [hr, if_true] at hc ⊢
    exact hmono _ _ _ _ hc
  · simp only [hr] at hc ⊢
    exact hc

/-- More depth than is needed changes nothing. -/
theorem broadcast_mono {depth' : Nat} (hle : depth ≤ depth')
    (hb : broadcast behave depth name n h = some (v, h')) :
    broadcast behave depth' name n h = some (v, h') := by
  induction depth generalizing depth' name h v h' with
  | zero => cases hb
  | succ depth ih =>
    obtain ⟨depth', rfl⟩ : ∃ d, depth' = d + 1 := ⟨depth' - 1, by omega⟩
    obtain ⟨calls, hmap, hfollow, hholds, hv⟩ := broadcast_succ_iff.mp hb
    refine broadcast_succ_iff.mpr ⟨calls, hmap, hfollow, ?_, hv⟩
    intro c hc
    exact (hholds c hc).of_broadcast fun m i w j hi => ih (by omega) hi

theorem Call.HoldsWithin.mono {c : Call σ} {depth' : Nat} (hle : depth ≤ depth')
    (hc : c.HoldsWithin behave name n depth) : c.HoldsWithin behave name n depth' :=
  hc.of_broadcast fun _ _ _ _ hb => broadcast_mono hle hb

theorem Call.holds_iff {c : Call σ} :
    c.Holds behave name n ↔ ∃ depth, c.HoldsWithin behave name n depth := by
  unfold Call.Holds Call.HoldsWithin tell Broadcasts
  by_cases hr : c.before.isRegistry c.member = true
  · simp [hr]
  · simp only [hr, isRegistry_note, if_false, Bool.false_eq_true, exists_const, Option.some.injEq]
    exact eq_comm

/-- Finitely many calls need no more depth than the one that needs the most. -/
theorem holdsWithin_of_holds {calls : List (Call σ)}
    (hholds : ∀ c ∈ calls, c.Holds behave name n) :
    ∃ depth, ∀ c ∈ calls, c.HoldsWithin behave name n depth := by
  induction calls with
  | nil => exact ⟨0, by simp⟩
  | cons c calls ih =>
    obtain ⟨hc, hholds⟩ := List.forall_mem_cons.mp hholds
    obtain ⟨d, hd⟩ := Call.holds_iff.mp hc
    obtain ⟨d', hd'⟩ := ih hholds
    refine ⟨max d d', List.forall_mem_cons.mpr ⟨hd.mono (by omega), ?_⟩⟩
    intro c' hc'
    exact (hd' c' hc').mono (by omega)

/-- A broadcast calls the members that its registry has when it begins, in their order, with its
notice; each call may change the hall for the ones that follow, and the vote is that of any of
them. -/
theorem broadcasts_iff :
    Broadcasts behave name n h v h' ↔
      ∃ calls : List (Call σ), calls.map Call.member = (h.registry name).members ∧
        Follow h calls h' ∧ (∀ c ∈ calls, c.Holds behave name n) ∧ v = calls.any Call.answer := by
  constructor
  · rintro ⟨depth, hb⟩
    obtain ⟨depth, rfl⟩ : ∃ d, depth = d + 1 := by
      cases depth with
      | zero => cases hb
      | succ d => exact ⟨d, rfl⟩
    obtain ⟨calls, hmap, hfollow, hholds, hv⟩ := broadcast_succ_iff.mp hb
    exact ⟨calls, hmap, hfollow, fun c hc => Call.holds_iff.mpr ⟨depth, hholds c hc⟩, hv⟩
  · rintro ⟨calls, hmap, hfollow, hholds, hv⟩
    obtain ⟨depth, hwithin⟩ := holdsWithin_of_holds hholds
    exact ⟨depth + 1, broadcast_succ_iff.mpr ⟨calls, hmap, hfollow, hwithin, hv⟩⟩

/-! ## What a broadcast keeps -/

section Keeps
variable {P : Hall σ → Prop}

theorem Follow.keeps {calls : List (Call σ)} (hfollow : Follow h calls h') (hp : P h)
    (hcall : ∀ c ∈ calls, P c.before → P c.after) : P h' := by
  induction calls generalizing h with
  | nil =>
    cases hfollow
    exact hp
  | cons c calls ih =>
    obtain ⟨rfl, hfollow⟩ := hfollow
    obtain ⟨hc, hcalls⟩ := List.forall_mem_cons.mp hcall
    exact ih hfollow (hc hp) hcalls

theorem Call.HoldsWithin.keeps {c : Call σ} (hnote : ∀ h r m, P h → P (h.note r m n))
    (hcarry : ∀ h m, P h → P (carryOut (behave m n h.memory) h).2)
    (hinner : ∀ m i w j, broadcast behave depth m n i = some (w, j) → P i → P j)
    (hc : c.HoldsWithin behave name n depth) (hp : P c.before) : P c.after := by
  have htold := hnote c.before name c.member hp
  unfold Call.HoldsWithin tell at hc
  by_cases hr : (c.before.note name c.member n).isRegistry c.member = true
  · simp only [hr, if_true] at hc
    exact hinner _ _ _ _ hc htold
  · simp only [hr] at hc
    have hafter := hcarry (c.before.note name c.member n) c.member htold
    rw [Option.some.inj hc] at hafter
    exact hafter

/-- The induction runs over the depth; within it over the calls. -/
theorem broadcast_keeps (hnote : ∀ h r m, P h → P (h.note r m n))
    (hcarry : ∀ h m, P h → P (carryOut (behave m n h.memory) h).2)
    (hb : broadcast behave depth name n h = some (v, h')) (hp : P h) : P h' := by
  induction depth generalizing name h v h' with
  | zero => cases hb
  | succ depth ih =>
    obtain ⟨calls, _, hfollow, hholds, _⟩ := broadcast_succ_iff.mp hb
    refine hfollow.keeps hp fun c hc hbefore => ?_
    exact (hholds c hc).keeps hnote hcarry (fun _ _ _ _ hi hpi => ih hi hpi) hbefore

theorem Call.Holds.keeps {c : Call σ} (hnote : ∀ h r m, P h → P (h.note r m n))
    (hcarry : ∀ h m, P h → P (carryOut (behave m n h.memory) h).2)
    (hc : c.Holds behave name n) (hp : P c.before) : P c.after := by
  obtain ⟨depth, hc⟩ := Call.holds_iff.mp hc
  exact hc.keeps hnote hcarry (fun _ _ _ _ hi hpi => broadcast_keeps hnote hcarry hi hpi) hp

end Keeps

/-! ## Registries stay sets -/

/-- No registry holds a member twice. -/
def Distinct (h : Hall σ) : Prop := ∀ q, (h.registry q).members.Nodup

theorem distinct_of_forall_mem (hall : ∀ e ∈ h.registries, e.2.members.Nodup) : h.Distinct := by
  intro q
  rcases h.registry_cases q with hq | hq
  · simp [hq]
  · exact hall _ hq

theorem Distinct.setRegistry (hd : h.Distinct) {r : Registry String} (hr : r.members.Nodup)
    (q : String) : (h.setRegistry q r).Distinct := by
  intro p
  rcases members_setRegistry h q p r with heq | heq
  · rw [heq]
    exact hd p
  · rw [heq]
    exact hr

theorem Distinct.perform (hd : h.Distinct) (a : Ask) : (h.perform a).2.Distinct := by
  cases a with
  | add r m => exact hd.setRegistry ((h.registry r).nodup_add m (hd r)) r
  | remove r m => exact hd.setRegistry ((h.registry r).nodup_remove m (hd r)) r
  | contains r m => exact hd

theorem Distinct.broadcasts (hd : h.Distinct) (hb : Broadcasts behave name n h v h') :
    h'.Distinct := by
  obtain ⟨depth, hb⟩ := hb
  refine broadcast_keeps (P := Distinct) (fun _ _ _ hi => hi) (fun i m hi => ?_) hb hd
  exact carryOut_keeps (fun _ _ hj => hj) (fun _ a hj => hj.perform a) _ hi

end Outbox.Hall
