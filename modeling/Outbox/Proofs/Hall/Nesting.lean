import Mathlib.Data.List.Perm.Subperm
import Outbox.Proofs.Hall.Calls

/-! # Broadcasts in nested registries

Registries may stand in one another as long as none comes to be told by itself: then the broadcasts
under way are those of different registries, so there are never more of them than registries, and
every broadcast comes to an end. `StaysAcyclic` says this of the broadcasts that really take place,
because listeners may turn the nesting over while it is walked; `staysAcyclic_of_ranked` is how it
is seen from the listeners. Main statement: `broadcast_over_snapshot`. -/
namespace Outbox
set_option autoImplicit false

namespace Hall

variable {σ : Type} {behave : Behaviour σ} {n : Notice} {name : String} {depth : Nat}
variable {v : Bool} {h h' i j : Hall σ} {m : String} {path outer : List String}

/-- The registries whose broadcasts are under way when the first of them begins its own in `i`; each
was called for by the next one on the list, and the last one is `name`. -/
inductive Underway (behave : Behaviour σ) (name : String) (n : Notice) (h : Hall σ) :
    List String → Hall σ → Prop
  | outermost : Underway behave name n h [name] h
  | inner {m k : String} {outer rest : List String} {calls : List (Call σ)} {i j : Hall σ}
      (hm : Underway behave name n h (m :: outer) i)
      (hmembers : calls.map Call.member ++ k :: rest = (i.registry m).members)
      (hfollow : Follow i calls j) (hholds : ∀ c ∈ calls, c.Holds behave m n)
      (hk : j.isRegistry k = true) :
      Underway behave name n h (k :: m :: outer) (j.note m k n)

/-- No registry passes the notice on to itself, directly or through others. -/
def StaysAcyclic (behave : Behaviour σ) (name : String) (n : Notice) (h : Hall σ) : Prop :=
  ∀ path i, Underway behave name n h path i → path.Nodup

/-! ## How many broadcasts are under way -/

def names (h : Hall σ) : List String := h.registries.map (·.1)

theorem mem_names : m ∈ h.names ↔ h.isRegistry m = true := by
  unfold names isRegistry
  rw [List.mem_map, List.lookup_isSome_iff]
  constructor
  · rintro ⟨e, he, rfl⟩
    exact ⟨e, he, beq_self_eq_true _⟩
  · rintro ⟨e, he, heq⟩
    exact ⟨e, he, (beq_iff_eq.mp heq).symm⟩

@[simp] theorem names_perform (h : Hall σ) (a : Ask) : (h.perform a).2.names = h.names := by
  have hset : ∀ q r, (h.setRegistry q r).names = h.names := by
    intro q r
    unfold names setRegistry
    rw [List.map_map]
    refine List.map_congr_left fun e _ => ?_
    obtain ⟨k, r'⟩ := e
    by_cases hk : k = q <;> simp [hk]
  cases a with
  | add r m => exact hset _ _
  | remove r m => exact hset _ _
  | contains r m => rfl

theorem names_carryOut (r : Reaction σ) (h : Hall σ) : (carryOut r h).2.names = h.names :=
  carryOut_keeps (P := fun i => i.names = h.names) (fun _ _ hi => hi)
    (fun i a hi => (names_perform i a).trans hi) r rfl

theorem Follow.names {calls : List (Call σ)} (hfollow : Follow i calls j)
    (hholds : ∀ c ∈ calls, c.Holds behave m n) : j.names = i.names := by
  refine hfollow.keeps (P := fun k => k.names = i.names) rfl fun c hc hbefore => ?_
  exact (hholds c hc).keeps (fun _ _ _ hk => hk) (fun k m hk => (names_carryOut _ k).trans hk)
    hbefore

theorem Underway.inner_registries (hu : Underway behave name n h path i) :
    i.names = h.names ∧ ∃ inner, path = inner ++ [name] ∧ ∀ k ∈ inner, k ∈ h.names := by
  induction hu with
  | outermost => exact ⟨rfl, [], rfl, by simp⟩
  | inner hm hmembers hfollow hholds hk ih =>
    obtain ⟨hnames, inner, hpath, hinner⟩ := ih
    have hj := (hfollow.names hholds).trans hnames
    refine ⟨hj, _ :: inner, by rw [hpath]; rfl, ?_⟩
    exact List.forall_mem_cons.mpr ⟨hj ▸ mem_names.mpr hk, hinner⟩

theorem StaysAcyclic.length_le (hac : StaysAcyclic behave name n h)
    (hu : Underway behave name n h path i) : path.length ≤ h.registries.length + 1 := by
  obtain ⟨_, inner, rfl, hinner⟩ := hu.inner_registries
  have hnodup : inner.Nodup := (List.nodup_append.mp (hac _ _ hu)).1
  have hle := (hnodup.subperm hinner).length_le
  simpa [names] using hle

/-! ## Every broadcast comes to an end -/

/-- The induction runs over the depth that is left, and within it over the members that are still
to be called: each of them is called in a hall that the calls before it have led to. -/
theorem StaysAcyclic.returns (hac : StaysAcyclic behave name n h)
    (hu : Underway behave name n h (m :: outer) i)
    (hdepth : h.registries.length + 1 ≤ depth + outer.length) :
    ∃ v j, broadcast behave depth m n i = some (v, j) := by
  induction depth generalizing m outer i with
  | zero =>
    have hle := hac.length_le hu
    simp only [List.length_cons] at hle
    omega
  | succ depth ih =>
    have hcalls : ∀ (todo : List String) (done : List (Call σ)) (j : Hall σ),
        done.map Call.member ++ todo = (i.registry m).members → Follow i done j →
        (∀ c ∈ done, c.HoldsWithin behave m n depth) →
        ∃ calls h', calls.map Call.member = todo ∧ Follow j calls h' ∧
          ∀ c ∈ calls, c.HoldsWithin behave m n depth := by
      intro todo
      induction todo with
      | nil => exact fun _ j _ _ _ => ⟨[], j, rfl, rfl, by simp⟩
      | cons k todo ihtodo =>
        intro done j hmembers hfollow hdone
        have hcall : ∃ w j', Call.HoldsWithin behave m n depth ⟨k, j, w, j'⟩ := by
          unfold Call.HoldsWithin tell
          by_cases hk : j.isRegistry k = true
          · have hin := hu.inner hmembers hfollow
              (fun c hc => Call.holds_iff.mpr ⟨depth, hdone c hc⟩) hk
            obtain ⟨w, j', hb⟩ := ih hin (by simp only [List.length_cons]; omega)
            exact ⟨w, j', by simpa [hk] using hb⟩
          · exact ⟨_, _, by simp only [isRegistry_note, hk]; rfl⟩
        obtain ⟨w, j', hc⟩ := hcall
        obtain ⟨calls, h', hmap, hrest, hholds⟩ := ihtodo (done ++ [⟨k, j, w, j'⟩]) j'
          (by simpa using hmembers) (hfollow.append (.single _))
          (List.forall_mem_append.mpr ⟨hdone, by simpa using hc⟩)
        refine ⟨⟨k, j, w, j'⟩ :: calls, h', by rw [List.map_cons, hmap], ⟨rfl, hrest⟩, ?_⟩
        exact List.forall_mem_cons.mpr ⟨hc, hholds⟩
    obtain ⟨calls, h', hmap, hfollow, hholds⟩ := hcalls _ [] i rfl rfl (by simp)
    exact ⟨_, h', broadcast_succ_iff.mpr ⟨calls, hmap, hfollow, hholds, rfl⟩⟩

/-! ## What is told -/

theorem told_carryOut (r : Reaction σ) (h : Hall σ) : (carryOut r h).2.told = h.told := by
  refine carryOut_keeps (P := fun i => i.told = h.told) (fun _ _ hi => hi) (fun i a hi => ?_) r rfl
  cases a <;> exact hi

/-- The first thing that comes of a call is that its member is told. -/
theorem Call.HoldsWithin.told {c : Call σ} {P : String × String × Notice → Prop}
    (hc : c.HoldsWithin behave m n depth)
    (hinner : c.before.isRegistry c.member = true → ∀ w k,
      broadcast behave depth c.member n (c.before.note m c.member n) = some (w, k) →
      ∃ new, k.told = new ++ (m, c.member, n) :: c.before.told ∧ ∀ e ∈ new, P e) :
    ∃ new, c.after.told = new ++ (m, c.member, n) :: c.before.told ∧ ∀ e ∈ new, P e := by
  unfold Call.HoldsWithin tell at hc
  by_cases hr : c.before.isRegistry c.member = true
  · exact hinner hr _ _ (by simpa [hr] using hc)
  · have hafter := told_carryOut (behave c.member n (c.before.note m c.member n).memory)
      (c.before.note m c.member n)
    simp only [isRegistry_note, hr, if_false, Bool.false_eq_true, Option.some.injEq] at hc
    rw [hc] at hafter
    exact ⟨[], hafter, by simp⟩

/-- If nothing that comes of the calls is told by their own registry, what it tells is the notice to
their members. -/
theorem Follow.told {calls : List (Call σ)} (hfollow : Follow i calls j) (hm : m ∉ outer)
    (hcall : ∀ c ∈ calls, ∃ new, c.after.told = new ++ (m, c.member, n) :: c.before.told ∧
      ∀ e ∈ new, e.1 ∉ m :: outer) :
    ∃ new, j.told = new ++ i.told ∧ (∀ e ∈ new, e.1 ∉ outer) ∧
      (new.filter (·.1 == m)).reverse = calls.map fun c => (m, c.member, n) := by
  induction calls generalizing i with
  | nil =>
    cases hfollow
    exact ⟨[], rfl, by simp, rfl⟩
  | cons c calls ih =>
    obtain ⟨rfl, hfollow⟩ := hfollow
    obtain ⟨⟨first, hfirst, hapart⟩, hcall⟩ := List.forall_mem_cons.mp hcall
    obtain ⟨new, htold, hothers, hown⟩ := ih hfollow hcall
    have hnone : first.filter (·.1 == m) = [] := by
      rw [List.filter_eq_nil_iff]
      intro e he heq
      exact hapart e he (by simp [beq_iff_eq.mp heq])
    refine ⟨new ++ first ++ [(m, c.member, n)], by simp [htold, hfirst], ?_, ?_⟩
    · intro e he
      simp only [List.mem_append, List.mem_singleton] at he
      rcases he with (he | he) | rfl
      · exact hothers e he
      · exact fun hmem => hapart e he (List.mem_cons_of_mem m hmem)
      · exact hm
    · simp [List.filter_append, hnone, ← hown]

/-- A registry tells its members in their order. What is told meanwhile is told by registries whose
broadcasts were not under way. -/
theorem StaysAcyclic.told (hac : StaysAcyclic behave name n h)
    (hu : Underway behave name n h (m :: outer) i)
    (hb : broadcast behave depth m n i = some (v, j)) :
    ∃ new, j.told = new ++ i.told ∧ (∀ e ∈ new, e.1 ∉ outer) ∧
      (new.filter (·.1 == m)).reverse = (i.registry m).members.map fun k => (m, k, n) := by
  induction depth generalizing m outer i v j with
  | zero => cases hb
  | succ depth ih =>
    have hm : m ∉ outer := (List.nodup_cons.mp (hac _ _ hu)).1
    obtain ⟨calls, hmap, hfollow, hholds, _⟩ := broadcast_succ_iff.mp hb
    have hcall : ∀ c ∈ calls, ∃ new, c.after.told = new ++ (m, c.member, n) :: c.before.told ∧
        ∀ e ∈ new, e.1 ∉ m :: outer := by
      intro c hc
      obtain ⟨done, todo, rfl⟩ := List.append_of_mem hc
      refine (hholds c hc).told fun hr w k hk => ?_
      have hmembers : done.map Call.member ++ c.member :: todo.map Call.member =
          (i.registry m).members := by
        rw [← hmap, List.map_append, List.map_cons]
      have hin := hu.inner hmembers hfollow.upTo
        (fun d hd => Call.holds_iff.mpr ⟨depth, hholds d (List.mem_append_left _ hd)⟩) hr
      obtain ⟨new, htold, hapart, _⟩ := ih hin hk
      exact ⟨new, htold, hapart⟩
    obtain ⟨new, htold, hothers, hown⟩ := hfollow.told hm hcall
    refine ⟨new, htold, hothers, ?_⟩
    rw [hown, ← hmap, List.map_map]
    rfl

/-! ## An order of the registries -/

/-- Registries stand only in others of higher rank. -/
def Ranked (rank : String → Nat) (h : Hall σ) : Prop :=
  ∀ q m, m ∈ (h.registry q).members → h.isRegistry m = true → rank m < rank q

end Hall

/-- The listener asks for no registry to be added to one of no higher rank, whatever it is answered. -/
def Reaction.Respects {σ : Type} (rank : String → Nat) (names : List String) : Reaction σ → Prop
  | .vote _ _ => True
  | .ask (.add q m) rest => (m ∈ names → rank m < rank q) ∧ ∀ b, (rest b).Respects rank names
  | .ask _ rest => ∀ b, (rest b).Respects rank names

namespace Hall

variable {σ : Type} {behave : Behaviour σ} {n : Notice} {name : String} {depth : Nat}
variable {v : Bool} {h h' i j : Hall σ} {m : String} {path outer : List String}
variable {rank : String → Nat}

theorem ranked_of_forall_mem
    (hall : ∀ e ∈ h.registries, ∀ m ∈ e.2.members, h.isRegistry m = true → rank m < rank e.1) :
    h.Ranked rank := by
  intro q m hm hreg
  rcases h.registry_cases q with hq | hq
  · simp [hq] at hm
  · exact hall _ hq m hm hreg

theorem Ranked.setRegistry (hr : h.Ranked rank) {q : String} {r : Registry String}
    (hnew : ∀ m ∈ r.members, h.isRegistry m = true → rank m < rank q) :
    (h.setRegistry q r).Ranked rank := by
  intro p m hm hreg
  rw [isRegistry_setRegistry] at hreg
  by_cases hp : p = q
  · subst hp
    rcases members_setRegistry h p p r with heq | heq
    · exact hr p m (heq ▸ hm) hreg
    · exact hnew m (heq ▸ hm) hreg
  · rw [registry_setRegistry_of_ne hp] at hm
    exact hr p m hm hreg

theorem Ranked.carryOut (hr : h.Ranked rank) {names : List String} (hnames : h.names = names)
    {r : Reaction σ} (hrespects : r.Respects rank names) : (Hall.carryOut r h).2.Ranked rank := by
  induction r generalizing h with
  | vote v s => exact hr
  | ask a rest ih =>
    have hnext := (names_perform h a).trans hnames
    cases a with
    | add q m =>
      obtain ⟨hadd, hrest⟩ := hrespects
      refine ih _ (hr.setRegistry fun k hk hreg => ?_) hnext (hrest _)
      rcases ((h.registry q).mem_add m k).mp hk with rfl | hk
      · exact hadd (hnames ▸ mem_names.mpr hreg)
      · exact hr q k hk hreg
    | remove q m =>
      refine ih _ (hr.setRegistry fun k hk hreg => ?_) hnext (hrespects _)
      exact hr q k (((h.registry q).mem_remove m k).mp hk).1 hreg
    | contains q m => exact ih _ hr hnext (hrespects _)

/-- If the registries have an order that every nesting follows and no listener goes against, no
registry comes to be told by itself: those under way rise in rank from the innermost one. -/
theorem staysAcyclic_of_ranked (hr : h.Ranked rank)
    (hb : ∀ m s, (behave m n s).Respects rank h.names) : StaysAcyclic behave name n h := by
  intro path i hu
  have hrises : i.Ranked rank ∧ path.Pairwise fun k m => rank k < rank m := by
    induction hu with
    | outermost => exact ⟨hr, List.pairwise_singleton _ _⟩
    | @inner m k outer rest calls i j hm hmembers hfollow hholds hk ih =>
      obtain ⟨hi, hrises⟩ := ih
      have hnames := hm.inner_registries.1
      have hj : j.Ranked rank ∧ j.names = h.names := by
        refine hfollow.keeps (P := fun k => k.Ranked rank ∧ k.names = h.names) ⟨hi, hnames⟩
          fun c hc hbefore => ?_
        refine (hholds c hc).keeps (P := fun k => k.Ranked rank ∧ k.names = h.names)
          (fun _ _ _ hk => hk) (fun k m hk => ?_) hbefore
        exact ⟨hk.1.carryOut hk.2 (hb m k.memory), (names_carryOut _ k).trans hk.2⟩
      have hbelow : rank k < rank m := by
        refine hi m k (hmembers ▸ by simp) (mem_names.mp ?_)
        rw [hnames, ← hj.2]
        exact mem_names.mpr hk
      refine ⟨hj.1, List.pairwise_cons.mpr ⟨?_, hrises⟩⟩
      intro p hp
      rcases List.mem_cons.mp hp with rfl | hp
      · exact hbelow
      · exact Nat.lt_trans hbelow ((List.pairwise_cons.mp hrises).1 p hp)
  exact hrises.2.imp fun hlt heq => Nat.ne_of_lt hlt (congrArg rank heq)

/-! ## The main statement -/

/-- Whatever the listeners do, a broadcast calls the members that its registry had when it began,
each of them once and in their order, and the vote is that of any of them; every call finds the
registries as the calls before it have left them, and so does the next broadcast. If no registry
comes to be told by itself, the broadcast comes to an end, and what its registry has told is the
notice to those members. -/
theorem broadcast_over_snapshot (behave : Behaviour σ) (name : String) (n : Notice) (h : Hall σ)
    (hd : h.Distinct) :
    (∀ v h', Broadcasts behave name n h v h' →
      h'.Distinct ∧ ∃ calls : List (Call σ),
        calls.map Call.member = (h.registry name).members ∧ (calls.map Call.member).Nodup ∧
        Follow h calls h' ∧ (∀ c ∈ calls, c.Holds behave name n) ∧ v = calls.any Call.answer) ∧
    (StaysAcyclic behave name n h → ∃ v h' new,
      (∀ depth, h.registries.length < depth → broadcast behave depth name n h = some (v, h')) ∧
      h'.told = new ++ h.told ∧
      (new.filter (·.1 == name)).reverse =
        (h.registry name).members.map fun m => (name, m, n)) := by
  constructor
  · intro v h' hb
    obtain ⟨calls, hmap, hfollow, hholds, hv⟩ := broadcasts_iff.mp hb
    exact ⟨hd.broadcasts hb, calls, hmap, hmap ▸ hd name, hfollow, hholds, hv⟩
  · intro hac
    have hdepth : h.registries.length + 1 ≤ h.registries.length + 1 + ([] : List String).length :=
      Nat.le_refl _
    obtain ⟨v, h', hb⟩ := hac.returns .outermost hdepth
    obtain ⟨new, htold, _, hown⟩ := hac.told .outermost hb
    exact ⟨v, h', new, fun depth hdepth => broadcast_mono hdepth hb, htold, hown⟩

/-- A team in a crew. The first of the crew brings a newcomer to each of them and has the last one
removed; one of the team is for a retry. -/
def crew : Hall Unit where
  registries := [("crew", ⟨["ann", "team", "bob"]⟩), ("team", ⟨["cat"]⟩)]
  memory := ()

def crewBehaviour : Behaviour Unit := fun name _ _ =>
  if name = "ann" then
    .ask (.remove "crew" "bob") fun _ => .ask (.add "crew" "dan") fun _ =>
      .ask (.add "team" "eve") fun _ => .vote false ()
  else .vote (name == "cat") ()

/-- The crew's broadcast goes to those who were there when it began, also to the one who is removed,
and the team's to those who are there when its turn comes. -/
theorem newcomer_waits_for_next :
    crew.Distinct ∧ ∃ v h' new,
      (∀ depth, crew.registries.length < depth →
        broadcast crewBehaviour depth "crew" (.error .disconnected) crew = some (v, h')) ∧
      v = true ∧ (h'.registry "crew").members = ["ann", "team", "dan"] ∧
      h'.told = new ++ crew.told ∧
      (new.filter (·.1 == "crew")).reverse = [("crew", "ann", .error .disconnected),
        ("crew", "team", .error .disconnected), ("crew", "bob", .error .disconnected)] ∧
      (new.filter (·.1 == "team")).reverse =
        [("team", "cat", .error .disconnected), ("team", "eve", .error .disconnected)] := by
  have hd : crew.Distinct := distinct_of_forall_mem (by decide)
  have hac : StaysAcyclic crewBehaviour "crew" (.error .disconnected) crew := by
    have hranked : crew.Ranked fun q => if q = "crew" then 1 else 0 :=
      ranked_of_forall_mem (by decide)
    refine staysAcyclic_of_ranked hranked fun m s => ?_
    unfold crewBehaviour
    by_cases hm : m = "ann"
    · subst hm
      simp [Reaction.Respects, names, crew]
    · simp [Reaction.Respects, hm]
  obtain ⟨v, h', new, hreturns, htold, hcrew⟩ :=
    (broadcast_over_snapshot crewBehaviour "crew" (.error .disconnected) crew hd).2 hac
  obtain ⟨rfl, rfl⟩ := Prod.mk.inj (Option.some.inj (hreturns 3 (by decide)))
  obtain rfl : _ = new := htold.trans (List.append_nil new)
  exact ⟨hd, _, _, _, hreturns, rfl, rfl, htold, hcrew, rfl⟩

end Hall

end Outbox
