import Outbox.Proofs.Settings.Written

/-! # Faults of a configuration

A value is at fault when it is not blank and is no numeral within the bound of its variable; an
endpoint list is at fault when one of its items is neither blank nor an endpoint. A configuration is
read exactly if no variable is at fault, and otherwise the first fault in the order of `Variable` is
reported, in an endpoint list the leftmost one. Every setting goes back to its own variable alone.
Main statement: `first_fault_reported`. -/
namespace Outbox.Text.Numeral
set_option autoImplicit false

theorem exists_read_eq_error_iff {bound : Nat} {s : List Char} (hb : 0 < bound) :
    (∃ q, read bound s = .error q) ↔ ∀ n < bound, ¬ IsNumeral n s := by
  constructor
  · rintro ⟨q, hq⟩ n hn hs
    cases hq.symm.trans ((read_eq_ok_iff hb).mpr ⟨hs, hn⟩)
  · intro h
    cases hr : read bound s with
    | error q => exact ⟨q, rfl⟩
    | ok n =>
      obtain ⟨hs, hn⟩ := (read_eq_ok_iff hb).mp hr
      exact absurd hs (h n hn)

end Outbox.Text.Numeral

namespace Outbox
set_option autoImplicit false

/-- A list has a first place where `P` holds in front of which `Q` holds everywhere if it has it at
its head, or if `Q` holds there and its tail has one. -/
theorem exists_split_cons_iff {α : Type} {P Q : α → Prop} {y : α} {l : List α} :
    (∃ before x after, y :: l = before ++ x :: after ∧ (∀ z ∈ before, Q z) ∧ P x) ↔
      P y ∨ (Q y ∧ ∃ before x after, l = before ++ x :: after ∧ (∀ z ∈ before, Q z) ∧ P x) := by
  constructor
  · rintro ⟨before, x, after, h, hbefore, hx⟩
    cases before with
    | nil =>
      obtain ⟨rfl, rfl⟩ := List.cons.inj h
      exact .inl hx
    | cons z before =>
      obtain ⟨rfl, rfl⟩ := List.cons.inj h
      obtain ⟨hy, hrest⟩ := List.forall_mem_cons.mp hbefore
      exact .inr ⟨hy, before, x, after, rfl, hrest, hx⟩
  · rintro (hy | ⟨hy, before, x, after, rfl, hbefore, hx⟩)
    · exact ⟨[], y, l, rfl, List.forall_mem_nil _, hy⟩
    · exact ⟨y :: before, x, after, rfl, List.forall_mem_cons.mpr ⟨hy, hbefore⟩, hx⟩

/-- The first element that counts and fails decides how the whole list fails. -/
theorem mapM_filter_eq_error_iff {α β ε : Type} {q : α → Bool} {f : α → Except ε β} {l : List α}
    {p : ε} : (l.filter q).mapM f = .error p ↔ ∃ before x after, l = before ++ x :: after ∧
      (∀ y ∈ before, q y = true → ∃ b, f y = .ok b) ∧ q x = true ∧ f x = .error p := by
  induction l with
  | nil =>
    refine ⟨nofun, ?_⟩
    rintro ⟨before, x, after, h, -⟩
    exact absurd h.symm (List.append_ne_nil_of_right_ne_nil _ (List.cons_ne_nil x after))
  | cons y l ih =>
    rw [exists_split_cons_iff, ← ih]
    by_cases hq : q y = true
    · rw [List.filter_cons_of_pos hq, List.mapM_cons]
      cases hy : f y with
      | error e =>
        change Except.error e = .error p ↔ _
        simp [hq]
      | ok b =>
        cases hl : (l.filter q).mapM f with
        | error e =>
          change Except.error e = .error p ↔ _
          simp
        | ok bs =>
          change Except.ok (b :: bs) = .error p ↔ _
          simp
    · rw [List.filter_cons_of_neg hq]
      simp [hq]

theorem error_eq_error_iff {α β ε : Type} {q p : ε} :
    (.error q : Except ε α) = .error p ↔ (.error q : Except ε β) = .error p := by
  rw [Except.error.injEq, Except.error.injEq]

theorem ok_eq_error_iff {α β ε : Type} {x : α} {y : β} {p : ε} :
    (.ok x : Except ε α) = .error p ↔ (.ok y : Except ε β) = .error p := by
  simp

namespace Config
open Text

variable {c d : Config} {lookup lookup' : Lookup} {v u : Variable} {p : Problem}

/-! ## Faults -/

/-- The numbers of a variable stay below this. -/
def Variable.bound? : Variable → Option Nat
  | .workerName | .endpoints => none
  | .submitAttempts => some UInt32.size
  | .idleTimeout | .retryDelay | .submitBackoff => some UInt64.size

/-- The value of a number that is neither blank nor a numeral within the bound. -/
def BadNumber (v : Variable) (t : String) : Prop :=
  ¬ AllBlank t.toList ∧ ∃ bound, v.bound? = some bound ∧
    ∀ n < bound, ¬ Numeral.IsNumeral n (trim t.toList)

theorem not_badNumber {t : String} (hv : v.bound? = none) : ¬ BadNumber v t := by
  rintro ⟨-, bound, hbound, -⟩
  cases hv.symm.trans hbound

def IsEndpoint (s : List Char) : Prop :=
  ∃ e : Endpoint, e.HasProperHost ∧ ∃ t, e.Spelling t ∧ Padded t s

/-- The item of an endpoint list that is neither blank nor an endpoint. -/
def BadItem (s : List Char) : Prop := ¬ AllBlank s ∧ ¬ IsEndpoint s

/-- What is wrong with the value of a variable: a number as it is given, of an endpoint list the
leftmost bad item without the blanks around it. -/
inductive Fault (lookup : Lookup) : Variable → Problem → Prop
  | number {v : Variable} {t : String} (hset : lookup v.key = some t) (hbad : BadNumber v t) :
      Fault lookup v (.badNumber v t)
  | endpoint {t : String} {before after : List (List Char)} {s : List Char} {p : Endpoint.Problem}
      (hset : lookup Variable.endpoints.key = some t)
      (hitems : fields ',' t.toList = before ++ s :: after) (hbefore : ∀ i ∈ before, ¬ BadItem i)
      (hbad : BadItem s) (hp : Endpoint.parse (String.ofList (trim s)) = .error p) :
      Fault lookup .endpoints (.badEndpoint .endpoints (String.ofList (trim s)) p)

def Unset (lookup : Lookup) (v : Variable) : Prop :=
  ∀ t, lookup v.key = some t → AllBlank t.toList

theorem environment_congr {value value' : Variable → String} {key : String}
    (h : ∀ u : Variable, u.key = key → value u = value' u) :
    environment value key = environment value' key := by
  unfold environment
  cases hfind : Variable.all.find? (·.key == key) with
  | none => rfl
  | some u =>
    have hu := List.find?_some hfind
    exact congrArg some (h u (beq_iff_eq.mp hu))

theorem setting?_eq_some_iff {s : List Char} :
    setting? lookup v = some s ↔
      ∃ t, lookup v.key = some t ∧ ¬ AllBlank t.toList ∧ t.toList = s := by
  cases h : lookup v.key with
  | none => simp [setting?, h]
  | some t =>
    rw [setting?_of_lookup h]
    by_cases hb : AllBlank t.toList
    · simp [trim_eq_nil_iff.mpr hb, hb]
    · have hne : (trim t.toList).isEmpty = false :=
        List.isEmpty_eq_false_iff.mpr (mt trim_eq_nil_iff.mp hb)
      simp [hne, hb]

theorem setting?_eq_none_iff : setting? lookup v = none ↔ Unset lookup v := by
  rw [Option.eq_none_iff_forall_ne_some]
  simp only [ne_eq, setting?_eq_some_iff, Unset]
  grind

/-! ## Reading one variable -/

theorem readNumber_eq_error_iff {bound : Nat} (hv : v.bound? = some bound) (hb : 0 < bound) :
    readNumber lookup v bound = .error p ↔ Fault lookup v p := by
  have hbad : ∀ t : String, BadNumber v t ↔
      ¬ AllBlank t.toList ∧ ∃ q, Numeral.read bound (trim t.toList) = .error q := by
    intro t
    rw [BadNumber, Numeral.exists_read_eq_error_iff hb, hv]
    simp only [Option.some.injEq, exists_eq_left']
  constructor
  · unfold readNumber
    split
    · nofun
    · rename_i s hs
      obtain ⟨t, hset, hblank, rfl⟩ := setting?_eq_some_iff.mp hs
      split
      · nofun
      · rename_i q hq
        rintro ⟨⟩
        rw [String.ofList_toList]
        exact .number hset ((hbad t).mpr ⟨hblank, q, hq⟩)
  · intro h
    cases h with
    | number hset h =>
      obtain ⟨hblank, q, hq⟩ := (hbad _).mp h
      rw [readNumber, setting?_eq_some_iff.mpr ⟨_, hset, hblank, rfl⟩]
      dsimp only
      rw [hq, String.ofList_toList]
    | endpoint => cases hv

theorem readMillis_eq_error_iff {default : Duration} (hv : v.bound? = some UInt64.size) :
    readMillis lookup v default = .error p ↔ Fault lookup v p := by
  rw [← readNumber_eq_error_iff hv (by decide), readMillis]
  cases readNumber lookup v UInt64.size with
  | error q => exact error_eq_error_iff
  | ok n => cases n <;> exact ok_eq_error_iff

theorem readAttempts_eq_error_iff {default : UInt32} :
    readAttempts lookup default = .error p ↔ Fault lookup .submitAttempts p := by
  rw [← readNumber_eq_error_iff rfl (by decide), readAttempts]
  cases readNumber lookup .submitAttempts UInt32.size with
  | error q => exact error_eq_error_iff
  | ok n => cases n <;> exact ok_eq_error_iff

theorem endpointOf_eq_error_iff {i : List Char} :
    endpointOf i = .error p ↔ ∃ q, Endpoint.parse (String.ofList i) = .error q ∧
      p = .badEndpoint .endpoints (String.ofList i) q := by
  rw [endpointOf, Endpoint.parse, String.toList_ofList]
  cases Endpoint.ofChars i with
  | ok e => simp
  | error q => simp [eq_comm]

/-- Blanks around an item make no difference to whether it is an endpoint. -/
theorem exists_endpointOf_iff {s : List Char} :
    (∃ e, endpointOf (trim s) = .ok e) ↔ IsEndpoint s := by
  have htrim : Endpoint.ofChars (trim s) = Endpoint.ofChars s := by
    rw [Endpoint.ofChars, ← (padded_trim s).trim_eq, Endpoint.ofChars]
  unfold IsEndpoint
  simp only [← Endpoint.ofChars_eq_ok_iff_padded, endpointOf, htrim]
  cases Endpoint.ofChars s <;> simp

theorem passes_iff_not_badItem {s : List Char} :
    ((!(trim s).isEmpty) = true → ∃ e, endpointOf (trim s) = .ok e) ↔ ¬ BadItem s := by
  rw [exists_endpointOf_iff, BadItem, ← trim_eq_nil_iff, Bool.not_eq_true',
    List.isEmpty_eq_false_iff]
  exact not_and_not_right.symm

theorem mapM_endpointOf_eq_error_iff {t : List Char} :
    (endpointItems t).mapM endpointOf = .error p ↔ ∃ before s after,
      fields ',' t = before ++ s :: after ∧ (∀ i ∈ before, ¬ BadItem i) ∧ BadItem s ∧
        endpointOf (trim s) = .error p := by
  have hbad : ∀ s : List Char, endpointOf (trim s) = .error p →
      ((!(trim s).isEmpty) = true ↔ BadItem s) := by
    intro s hs
    rw [← not_iff_not, ← passes_iff_not_badItem, hs]
    simp
  rw [endpointItems, List.filter_map, List.mapM_map, mapM_filter_eq_error_iff]
  simp only [Function.comp_apply, passes_iff_not_badItem]
  refine exists_congr fun before => exists_congr fun s => exists_congr fun after => ?_
  exact and_congr_right fun _ => and_congr_right fun _ => and_congr_left (hbad s)

theorem readEndpoints_eq_error_iff :
    readEndpoints lookup [] = .error p ↔ Fault lookup .endpoints p := by
  cases hset : lookup Variable.endpoints.key with
  | none =>
    have hunset : setting? lookup .endpoints = none := by
      rw [setting?_eq_none_iff, Unset, hset]
      intro t ht
      cases ht
    rw [readEndpoints, hunset]
    constructor
    · intro h
      cases h
    · intro h
      cases h with
      | number h => cases hset.symm.trans h
      | endpoint h => cases hset.symm.trans h
  | some t =>
    rw [readEndpoints_of_lookup hset, mapM_endpointOf_eq_error_iff]
    constructor
    · rintro ⟨before, s, after, hitems, hbefore, hbad, hs⟩
      obtain ⟨q, hq, rfl⟩ := endpointOf_eq_error_iff.mp hs
      exact .endpoint hset hitems hbefore hbad hq
    · intro h
      cases h with
      | number _ hbad => exact absurd hbad (not_badNumber rfl)
      | endpoint h hitems hbefore hbad hp =>
        cases hset.symm.trans h
        exact ⟨_, _, _, hitems, hbefore, hbad, endpointOf_eq_error_iff.mpr ⟨_, hp, rfl⟩⟩

/-- Some item of a list with a bad one is the leftmost. -/
theorem exists_fault_of_badItem {t : String} {s : List Char}
    (hset : lookup Variable.endpoints.key = some t) (hs : s ∈ fields ',' t.toList)
    (hbad : BadItem s) : ∃ p, Fault lookup .endpoints p := by
  classical
  cases hfind : (fields ',' t.toList).find? fun i => decide (BadItem i) with
  | none => exact absurd (decide_eq_true hbad) (List.find?_eq_none.mp hfind s hs)
  | some i =>
    obtain ⟨hi, before, after, hitems, hbefore⟩ := List.find?_eq_some_iff_append.mp hfind
    have hworst : BadItem i := of_decide_eq_true hi
    cases hread : endpointOf (trim i) with
    | ok e => exact absurd (exists_endpointOf_iff.mp ⟨e, hread⟩) hworst.2
    | error p =>
      obtain ⟨q, hq, rfl⟩ := endpointOf_eq_error_iff.mp hread
      exact ⟨_, .endpoint hset hitems (by simpa using hbefore) hworst hq⟩

theorem exists_fault_iff : (∃ v p, Fault lookup v p) ↔
    (∃ v t, lookup v.key = some t ∧ BadNumber v t) ∨
      ∃ t s, lookup Variable.endpoints.key = some t ∧ s ∈ fields ',' t.toList ∧ BadItem s := by
  constructor
  · rintro ⟨v, p, h⟩
    cases h with
    | number hset hbad => exact .inl ⟨v, _, hset, hbad⟩
    | endpoint hset hitems _ hbad => exact .inr ⟨_, _, hset, hitems ▸ by simp, hbad⟩
  · rintro (⟨v, t, hset, hbad⟩ | ⟨t, s, hset, hs, hbad⟩)
    · exact ⟨v, _, .number hset hbad⟩
    · exact ⟨_, exists_fault_of_badItem hset hs hbad⟩

/-! ## Settings -/

/-- What a variable sets. -/
def Variable.Setting : Variable → Type
  | .workerName => String
  | .idleTimeout | .retryDelay | .submitBackoff => Duration
  | .submitAttempts => UInt32
  | .endpoints => List Endpoint

def setting (c : Config) : (v : Variable) → v.Setting
  | .workerName => c.name
  | .idleTimeout => c.idleTimeout
  | .retryDelay => c.retryDelay
  | .submitAttempts => c.submitAttempts
  | .submitBackoff => c.submitBackoff
  | .endpoints => c.endpoints

/-- The configuration with another setting of one variable. -/
def withSetting (c : Config) : (v : Variable) → v.Setting → Config
  | .workerName, x => { c with name := x }
  | .idleTimeout, x => { c with idleTimeout := x }
  | .retryDelay, x => { c with retryDelay := x }
  | .submitAttempts, x => { c with submitAttempts := x }
  | .submitBackoff, x => { c with submitBackoff := x }
  | .endpoints, x => { c with endpoints := x }

theorem setting_withSetting_self (c : Config) (v : Variable) (x : v.Setting) :
    (c.withSetting v x).setting v = x := by
  cases v <;> rfl

theorem setting_withSetting_of_ne (c : Config) {u v : Variable} (x : v.Setting) (h : u ≠ v) :
    (c.withSetting v x).setting u = c.setting u := by
  cases u <;> cases v <;> first | exact absurd rfl h | rfl

theorem initialHolds_withSetting (c : Config) (v : Variable) (x : v.Setting) :
    (c.withSetting v x).initialHolds = c.initialHolds := by
  cases v <;> rfl

/-- What one variable sets when it is read by itself. -/
def readSetting (lookup : Lookup) : (v : Variable) → Except Problem v.Setting
  | .workerName => .ok (readName lookup ({} : Config).name)
  | .idleTimeout => readMillis lookup .idleTimeout ({} : Config).idleTimeout
  | .retryDelay => readMillis lookup .retryDelay ({} : Config).retryDelay
  | .submitAttempts => readAttempts lookup ({} : Config).submitAttempts
  | .submitBackoff => readMillis lookup .submitBackoff ({} : Config).submitBackoff
  | .endpoints => readEndpoints lookup ({} : Config).endpoints

theorem readSetting_eq_error_iff : readSetting lookup v = .error p ↔ Fault lookup v p := by
  cases v with
  | workerName =>
    refine ⟨nofun, fun h => ?_⟩
    cases h with
    | number _ hbad => exact absurd hbad (not_badNumber rfl)
  | submitAttempts => exact readAttempts_eq_error_iff
  | endpoints => exact readEndpoints_eq_error_iff
  | idleTimeout | retryDelay | submitBackoff => exact readMillis_eq_error_iff rfl

/-- A variable that is not at fault has a setting, and one that is has none. -/
theorem exists_readSetting_iff :
    (∃ x, readSetting lookup v = .ok x) ↔ ∀ p, ¬ Fault lookup v p := by
  simp only [← readSetting_eq_error_iff]
  cases readSetting lookup v <;> simp

theorem readSetting_congr (h : lookup v.key = lookup' v.key) :
    readSetting lookup v = readSetting lookup' v := by
  have hset : setting? lookup v = setting? lookup' v := by rw [setting?, h, setting?]
  cases v <;>
    simp only [readSetting, readName, readMillis, readAttempts, readNumber, readEndpoints, hset] <;>
    rfl

theorem readSetting_of_unset (h : Unset lookup v) :
    readSetting lookup v = .ok (({} : Config).setting v) := by
  have hset := setting?_eq_none_iff.mpr h
  cases v <;>
    simp only [readSetting, readName, readMillis, readAttempts, readNumber, readEndpoints, hset] <;>
    rfl

/-! ## The configuration -/

theorem read_eq : read lookup = do
    let idleTimeout ← readSetting lookup .idleTimeout
    let retryDelay ← readSetting lookup .retryDelay
    let submitAttempts ← readSetting lookup .submitAttempts
    let submitBackoff ← readSetting lookup .submitBackoff
    let endpoints ← readSetting lookup .endpoints
    return { ({} : Config) with
      name := readName lookup ({} : Config).name
      idleTimeout, retryDelay, submitAttempts, submitBackoff, endpoints } :=
  rfl

/-- A configuration is read exactly if it has the settings of all variables. -/
theorem read_eq_ok_iff : read lookup = .ok c ↔ c.initialHolds = ({} : Config).initialHolds ∧
    ∀ v, readSetting lookup v = .ok (c.setting v) := by
  constructor
  · rw [read_eq]
    cases hidle : readSetting lookup .idleTimeout with
    | error => nofun
    | ok a =>
    cases hretry : readSetting lookup .retryDelay with
    | error => nofun
    | ok b =>
    cases hattempts : readSetting lookup .submitAttempts with
    | error => nofun
    | ok n =>
    cases hbackoff : readSetting lookup .submitBackoff with
    | error => nofun
    | ok d =>
    cases hends : readSetting lookup .endpoints with
    | error => nofun
    | ok es =>
    rintro ⟨⟩
    refine ⟨rfl, fun v => ?_⟩
    cases v with
    | workerName => rfl
    | idleTimeout => exact hidle
    | retryDelay => exact hretry
    | submitAttempts => exact hattempts
    | submitBackoff => exact hbackoff
    | endpoints => exact hends
  · rintro ⟨hholds, hall⟩
    have hname : readName lookup ({} : Config).name = c.name := Except.ok.inj (hall .workerName)
    rw [read_eq, hname, hall, hall, hall, hall, hall]
    cases c
    subst hholds
    rfl

/-- Reads the variables one after the other and fails like the first that fails. -/
def check (lookup : Lookup) (v : Variable) : Except Problem Unit :=
  (readSetting lookup v).map fun _ => ()

theorem read_eq_error_iff_check :
    read lookup = .error p ↔ Variable.all.mapM (check lookup) = .error p := by
  rw [read_eq]
  simp only [Variable.all, List.mapM_cons, List.mapM_nil, check]
  cases readSetting lookup .idleTimeout with
  | error q => exact error_eq_error_iff
  | ok a =>
  cases readSetting lookup .retryDelay with
  | error q => exact error_eq_error_iff
  | ok b =>
  cases readSetting lookup .submitAttempts with
  | error q => exact error_eq_error_iff
  | ok c =>
  cases readSetting lookup .submitBackoff with
  | error q => exact error_eq_error_iff
  | ok d =>
  cases readSetting lookup .endpoints with
  | error q => exact error_eq_error_iff
  | ok e => exact ok_eq_error_iff

/-- The fault that is reported is that of the first variable at fault. -/
theorem read_eq_error_iff : read lookup = .error p ↔
    ∃ before v after, Variable.all = before ++ v :: after ∧
      (∀ u ∈ before, ∀ q, ¬ Fault lookup u q) ∧ Fault lookup v p := by
  have hfails : ∀ u q, check lookup u = .error q ↔ Fault lookup u q := by
    intro u q
    rw [← readSetting_eq_error_iff, check]
    cases readSetting lookup u with
    | error => exact error_eq_error_iff
    | ok => exact ok_eq_error_iff
  have hpasses : ∀ u, (∃ a, check lookup u = .ok a) ↔ ∀ q, ¬ Fault lookup u q := by
    intro u
    simp only [← hfails]
    cases check lookup u <;> simp
  have hall := mapM_filter_eq_error_iff (q := fun _ => true) (f := check lookup)
    (l := Variable.all) (p := p)
  rw [List.filter_true] at hall
  rw [read_eq_error_iff_check, hall]
  simp only [forall_const, true_and, hpasses, hfails]

theorem exists_read_eq_error_iff : (∃ p, read lookup = .error p) ↔ ∃ v p, Fault lookup v p := by
  constructor
  · rintro ⟨p, h⟩
    obtain ⟨_, v, _, _, _, hv⟩ := read_eq_error_iff.mp h
    exact ⟨v, p, hv⟩
  · rintro ⟨v, p, h⟩
    cases hread : read lookup with
    | error q => exact ⟨q, rfl⟩
    | ok c =>
      exact absurd h (exists_readSetting_iff.mp ⟨_, (read_eq_ok_iff.mp hread).2 v⟩ p)

theorem key_ne (h : u ≠ v) : u.key ≠ v.key := by
  cases u <;> cases v <;> first | exact absurd rfl h | decide

/-- Another value of one variable changes its setting and leaves all others alone. -/
theorem exists_read_withSetting (hread : read lookup = .ok c)
    (hsame : ∀ key, key ≠ v.key → lookup' key = lookup key)
    (hfree : ∀ p, ¬ Fault lookup' v p) : ∃ x, read lookup' = .ok (c.withSetting v x) := by
  obtain ⟨hholds, hall⟩ := read_eq_ok_iff.mp hread
  obtain ⟨x, hx⟩ := exists_readSetting_iff.mpr hfree
  refine ⟨x, read_eq_ok_iff.mpr ⟨(initialHolds_withSetting c v x).trans hholds, fun u => ?_⟩⟩
  by_cases hu : u = v
  · subst hu
    rw [hx, setting_withSetting_self]
  · rw [readSetting_congr (hsame u.key (key_ne hu)), hall u, setting_withSetting_of_ne c x hu]

/-- A configuration is read unless a number is neither blank nor a numeral within its bound or an
item of the endpoint list is neither blank nor an endpoint, and the first fault is reported. In a
configuration that was read every setting depends on its own variable alone: another value of one
variable that is not at fault changes no other setting, and a variable that is unset or blank leaves
its default. -/
theorem first_fault_reported :
    (∀ lookup, (∃ p, read lookup = .error p) ↔
      (∃ v t, lookup v.key = some t ∧ BadNumber v t) ∨
        ∃ t s, lookup Variable.endpoints.key = some t ∧ s ∈ fields ',' t.toList ∧ BadItem s) ∧
    (∀ lookup p, read lookup = .error p ↔ ∃ before v after, Variable.all = before ++ v :: after ∧
      (∀ u ∈ before, ∀ q, ¬ Fault lookup u q) ∧ Fault lookup v p) ∧
    ∀ lookup c, read lookup = .ok c → c.initialHolds = ({} : Config).initialHolds ∧ ∀ v,
      (Unset lookup v → c.setting v = ({} : Config).setting v) ∧
      (∀ lookup' d, read lookup' = .ok d → lookup' v.key = lookup v.key →
        d.setting v = c.setting v) ∧
      ∀ lookup', (∀ key, key ≠ v.key → lookup' key = lookup key) →
        (∀ p, ¬ Fault lookup' v p) → ∃ x, read lookup' = .ok (c.withSetting v x) := by
  refine ⟨fun lookup => exists_read_eq_error_iff.trans exists_fault_iff,
    fun lookup p => read_eq_error_iff, fun lookup c hread => ?_⟩
  obtain ⟨hholds, hall⟩ := read_eq_ok_iff.mp hread
  refine ⟨hholds, fun v => ⟨fun hunset => ?_, fun lookup' d hd hv => ?_,
    fun lookup' hsame hfree => exists_read_withSetting hread hsame hfree⟩⟩
  · exact Except.ok.inj ((hall v).symm.trans (readSetting_of_unset hunset))
  · refine Except.ok.inj (((read_eq_ok_iff.mp hd).2 v).symm.trans ?_)
    rw [readSetting_congr hv, hall v]

/-- The attempts do not fit into 32 bits, the third item of the endpoint list has an empty port. -/
def scrawled : Variable → String
  | .workerName => "\t"
  | .idleTimeout => "\u3000"
  | .retryDelay => "+0007"
  | .submitAttempts => " 4294967296 "
  | .submitBackoff => "4294967296"
  | .endpoints => "a.example.net:1, , b: ,c:x"

def mended : Variable → String
  | .submitAttempts => "3"
  | .endpoints => "a.example.net:1"
  | v => scrawled v

def hurried : Variable → String
  | .retryDelay => "0"
  | v => mended v

theorem scrawled_attempts_reported :
    read (environment scrawled) = .error (.badNumber .submitAttempts " 4294967296 ") ∧
    Fault (environment scrawled) .submitAttempts (.badNumber .submitAttempts " 4294967296 ") ∧
    ∃ c x, read (environment mended) = .ok c ∧ Unset (environment mended) .idleTimeout ∧
      c.idleTimeout = .ofMillis 60000 ∧
      (∀ p, ¬ Fault (environment hurried) .retryDelay p) ∧
      read (environment hurried) = .ok { c with retryDelay := x } := by
  obtain ⟨-, hfirst, hsettings⟩ := first_fault_reported
  have hbad : read (environment scrawled) = .error (.badNumber .submitAttempts " 4294967296 ") :=
    rfl
  obtain ⟨before, v, after, -, -, hv⟩ := (hfirst _ _).mp hbad
  refine ⟨hbad, ?_, ?_⟩
  · cases hv with
    | number hset h => exact .number hset h
  obtain ⟨c, hread⟩ : ∃ c, read (environment mended) = .ok c := ⟨_, rfl⟩
  have hunset : Unset (environment mended) .idleTimeout := setting?_eq_none_iff.mp rfl
  have hfree : ∀ p, ¬ Fault (environment hurried) .retryDelay p :=
    exists_readSetting_iff.mp ⟨_, rfl⟩
  have hsame : ∀ key, key ≠ Variable.retryDelay.key →
      environment hurried key = environment mended key := by
    refine fun key hkey => environment_congr fun u hu => ?_
    cases u with
    | retryDelay => exact absurd hu.symm hkey
    | _ => rfl
  obtain ⟨x, hx⟩ := ((hsettings _ c hread).2 .retryDelay).2.2 _ hsame hfree
  exact ⟨c, x, hread, hunset, ((hsettings _ c hread).2 .idleTimeout).1 hunset, hfree, hx⟩

end Config

end Outbox
