import Mathlib.Data.List.Forall2
import Outbox.Config
import Outbox.Proofs.Addresses.Endpoints

/-! # Reading a written configuration

A configuration is written as the values of its variables. Blanks around a value or around an item
of the endpoint list mean nothing, and neither do empty items. An empty list of endpoints is written
as a blank value, which stands for the default, and by default there are no endpoints. Main
statement: `written_reads_back`. -/
namespace Outbox.Text
set_option autoImplicit false

/-! ## Items between blanks -/

theorem ne_nil_of_padded {ss fs : List (List Char)} (h : List.Forall₂ Padded ss fs)
    (hne : ss ≠ []) : fs ≠ [] := by
  rintro rfl
  exact hne (List.forall₂_nil_right_iff.mp h)

/-- Blanks around a list of items are blanks of its first and its last item. -/
theorem Padded.exists_items {c : Char} {ss fs : List (List Char)} {t : List Char}
    (h : List.Forall₂ Padded ss fs) (hne : ss ≠ []) (ht : Padded (joined c fs) t) :
    ∃ gs, List.Forall₂ Padded ss gs ∧ joined c gs = t := by
  induction h generalizing t with
  | nil => exact absurd rfl hne
  | @cons s f ss fs hpad hrest ih =>
    by_cases hss : ss = []
    · subst hss
      cases hrest
      exact ⟨[t], .cons (hpad.trans ht) .nil, rfl⟩
    · -- The blanks in front go to the first item, those behind go on to the rest of the list.
      obtain ⟨a, b, ha, hb, rfl⟩ := ht
      have hlast : Padded (joined c fs) (joined c fs ++ b) :=
        ⟨[], b, List.forall_mem_nil _, hb, rfl⟩
      obtain ⟨gs, hgs, hj⟩ := ih hss hlast
      have hfirst : Padded s (a ++ f) :=
        hpad.trans ⟨a, [], ha, List.forall_mem_nil _, (List.append_nil _).symm⟩
      refine ⟨(a ++ f) :: gs, .cons hfirst hgs, ?_⟩
      rw [joined_cons_of_ne_nil _ (ne_nil_of_padded hgs hss),
        joined_cons_of_ne_nil _ (ne_nil_of_padded hrest hss), hj]
      simp only [List.append_assoc, List.cons_append]

theorem map_trim_of_padded {ss fs : List (List Char)} (h : List.Forall₂ Padded ss fs)
    (hss : ∀ s ∈ ss, trim s = s) : fs.map trim = ss := by
  induction h with
  | nil => rfl
  | cons hpad _ ih =>
    obtain ⟨hs, hrest⟩ := List.forall_mem_cons.mp hss
    rw [List.map_cons, hpad.trim_eq, hs, ih hrest]

theorem not_mem_of_padded {c : Char} {ss fs : List (List Char)} (h : List.Forall₂ Padded ss fs)
    (hc : isBlank c = false) (hss : ∀ s ∈ ss, c ∉ s) : ∀ f ∈ fs, c ∉ f := by
  induction h with
  | nil => exact List.forall_mem_nil _
  | cons hpad _ ih =>
    obtain ⟨hs, hrest⟩ := List.forall_mem_cons.mp hss
    exact List.forall_mem_cons.mpr ⟨hpad.not_mem hc hs, ih hrest⟩

/-- The fields of a padded list of padded items, trimmed, are the items. -/
theorem map_trim_fields {c : Char} {ss fs : List (List Char)} {t : List Char}
    (h : List.Forall₂ Padded ss fs) (hne : ss ≠ []) (ht : Padded (joined c fs) t)
    (hc : isBlank c = false) (hss : ∀ s ∈ ss, c ∉ s ∧ trim s = s) :
    (fields c t).map trim = ss := by
  obtain ⟨gs, hgs, rfl⟩ := Padded.exists_items h hne ht
  have hwhole : ∀ g ∈ gs, c ∉ g := not_mem_of_padded hgs hc fun s hs => (hss s hs).1
  rw [fields_joined (ne_nil_of_padded hgs hne) hwhole]
  exact map_trim_of_padded hgs fun s hs => (hss s hs).2

end Outbox.Text

namespace Outbox.Config
open Text
set_option autoImplicit false

variable {c : Config} {lookup : Lookup} {v : Variable} {t : String}

/-- What can be written: the initial holds have no variable, durations are written in whole
milliseconds, and the name and the hosts have to survive the trimming and the commas. -/
structure Writable (c : Config) : Prop where
  holds : c.initialHolds = 0
  name_ne : c.name ≠ ""
  name_head : ∀ ch ∈ c.name.toList.head?, isBlank ch = false
  name_last : ∀ ch ∈ c.name.toList.getLast?, isBlank ch = false
  idleTimeout : ∃ ms, c.idleTimeout = .ofMillis ms
  retryDelay : ∃ ms, c.retryDelay = .ofMillis ms
  submitBackoff : ∃ ms, c.submitBackoff = .ofMillis ms
  hosts : ∀ e ∈ c.endpoints, e.HasProperHost ∧ ',' ∉ e.host.toList

/-- The environment that has these values of the variables, and nothing else. -/
def environment (value : Variable → String) : Lookup := fun key =>
  (Variable.all.find? (·.key == key)).map value

def rendered (c : Config) : Lookup := environment fun v => String.ofList (c.written v)

/-- An item of an endpoint list; it may be empty. -/
def item : Option Endpoint → List Char
  | some e => e.chars
  | none => []

/-- The text lists the endpoints in their order, with empty items among them and blanks around
each item and around the list. -/
def ListsEndpoints (es : List Endpoint) (t : List Char) : Prop :=
  ∃ (slots : List (Option Endpoint)) (items : List (List Char)), slots.filterMap id = es ∧
    List.Forall₂ Padded (slots.map item) items ∧ Padded (joined ',' items) t

/-- The environment has the values of the configuration, with blanks around them. -/
structure Spells (lookup : Lookup) (c : Config) : Prop where
  plain : ∀ v, v ≠ .endpoints → ∃ t, lookup v.key = some t ∧ Padded (c.written v) t.toList
  endpoints : ∃ t, lookup Variable.endpoints.key = some t ∧ ListsEndpoints c.endpoints t.toList

theorem environment_key (value : Variable → String) (v : Variable) :
    environment value v.key = some (value v) := by
  cases v <;> rfl

/-! ## Single values -/

theorem setting?_of_lookup (h : lookup v.key = some t) :
    setting? lookup v = if (trim t.toList).isEmpty then none else some t.toList := by
  rw [setting?, h, Option.map_some, Option.filter_some]
  cases (trim t.toList).isEmpty <;> rfl

theorem setting?_of_padded {s : List Char} (h : lookup v.key = some t) (hpad : Padded s t.toList)
    (hs : trim s = s) (hne : s ≠ []) :
    setting? lookup v = some t.toList ∧ trim t.toList = s := by
  have hvalue : trim t.toList = s := hpad.trim_eq.trans hs
  rw [setting?_of_lookup h, hvalue, List.isEmpty_eq_false_iff.mpr hne]
  exact ⟨rfl, rfl⟩

theorem readName_of_padded {name default : String} (h : lookup Variable.workerName.key = some t)
    (hpad : Padded name.toList t.toList) (hs : trim name.toList = name.toList) (hne : name ≠ "") :
    readName lookup default = name := by
  obtain ⟨hset, hvalue⟩ := setting?_of_padded h hpad hs (mt String.toList_eq_nil_iff.mp hne)
  rw [readName, hset]
  dsimp only
  rw [hvalue, String.ofList_toList]

theorem readNumber_of_padded {bound n : Nat} (h : lookup v.key = some t)
    (hpad : Padded (Numeral.digits n) t.toList) (hn : n < bound) :
    readNumber lookup v bound = .ok (some n) := by
  have hs : trim (Numeral.digits n) = Numeral.digits n :=
    trim_eq_self_of_forall fun _ => (Numeral.isNumeral_digits n).not_blank
  obtain ⟨hset, hvalue⟩ := setting?_of_padded h hpad hs (Numeral.digits_ne_nil n)
  rw [readNumber, hset]
  dsimp only
  rw [hvalue, Numeral.read_digits hn]

theorem readMillis_of_padded {d default : Duration} (h : lookup v.key = some t)
    (hpad : Padded (Numeral.digits d.millis) t.toList) (hd : ∃ ms, d = .ofMillis ms) :
    readMillis lookup v default = .ok d := by
  obtain ⟨ms, rfl⟩ := hd
  rw [Duration.millis_ofMillis] at hpad
  rw [readMillis, readNumber_of_padded h hpad ms.toNat_lt_size]
  change Except.ok (Duration.ofMillis (UInt64.ofNat ms.toNat)) = _
  rw [UInt64.ofNat_toNat]

theorem readAttempts_of_padded {n default : UInt32}
    (h : lookup Variable.submitAttempts.key = some t)
    (hpad : Padded (Numeral.digits n.toNat) t.toList) : readAttempts lookup default = .ok n := by
  rw [readAttempts, readNumber_of_padded h hpad n.toNat_lt_size]
  change Except.ok (UInt32.ofNat n.toNat) = _
  rw [UInt32.ofNat_toNat]

/-! ## The endpoint list -/

theorem endpointItems_of_allBlank {s : List Char} (h : AllBlank s) : endpointItems s = [] := by
  rw [endpointItems, fields_eq_singleton (h.not_mem rfl), List.map_singleton,
    trim_eq_nil_iff.mpr h]
  rfl

/-- A blank value has no items, so it need not be told apart. -/
theorem readEndpoints_of_lookup (h : lookup Variable.endpoints.key = some t) :
    readEndpoints lookup [] = (endpointItems t.toList).mapM endpointOf := by
  rw [readEndpoints, setting?_of_lookup h]
  by_cases ht : trim t.toList = []
  · rw [endpointItems_of_allBlank (trim_eq_nil_iff.mp ht), ht]
    rfl
  · rw [List.isEmpty_eq_false_iff.mpr ht, if_neg Bool.false_ne_true]

theorem mapM_endpointOf {es : List Endpoint} (h : ∀ e ∈ es, e.HasProperHost) :
    (es.map Endpoint.chars).mapM endpointOf = .ok es := by
  induction es with
  | nil => rfl
  | cons e es ih =>
    obtain ⟨he, hes⟩ := List.forall_mem_cons.mp h
    have hfirst : endpointOf e.chars = .ok e := by
      rw [endpointOf, Endpoint.ofChars_chars_iff.mpr he]
    rw [List.map_cons, List.mapM_cons, hfirst, ih hes]
    rfl

theorem filter_items (slots : List (Option Endpoint)) :
    (slots.map item).filter (fun i => !i.isEmpty) = (slots.filterMap id).map Endpoint.chars := by
  induction slots with
  | nil => rfl
  | cons slot slots ih =>
    cases slot with
    | none => simpa [item] using ih
    | some e =>
      have hne : e.chars.isEmpty = false := by simp [Endpoint.chars]
      simp [item, hne, ih]

theorem comma_not_mem_chars {e : Endpoint} (h : ',' ∉ e.host.toList) : ',' ∉ e.chars := by
  have hdigits : ',' ∉ Numeral.digits e.port.toNat := fun hc =>
    absurd (Numeral.isDigit_of_mem_digits hc) (by decide)
  simp [Endpoint.chars, h, hdigits]

theorem endpointItems_of_lists {es : List Endpoint} {s : List Char} (h : ListsEndpoints es s)
    (hhosts : ∀ e ∈ es, e.HasProperHost ∧ ',' ∉ e.host.toList) :
    endpointItems s = es.map Endpoint.chars := by
  obtain ⟨slots, items, rfl, hitems, hpad⟩ := h
  by_cases hslots : slots = []
  · subst hslots
    rw [List.forall₂_nil_left_iff.mp hitems] at hpad
    exact endpointItems_of_allBlank (trim_eq_nil_iff.mp hpad.trim_eq)
  · have hkept : ∀ i ∈ slots.map item, ',' ∉ i ∧ trim i = i := by
      intro i hi
      obtain ⟨slot, hslot, rfl⟩ := List.mem_map.mp hi
      cases slot with
      | none => exact ⟨List.not_mem_nil, rfl⟩
      | some e =>
        obtain ⟨hhost, hcomma⟩ := hhosts e (List.mem_filterMap.mpr ⟨some e, hslot, rfl⟩)
        exact ⟨comma_not_mem_chars hcomma,
          trim_eq_self_of_forall ((Endpoint.spelling_chars e).not_blank hhost)⟩
    have hne : slots.map item ≠ [] := mt List.map_eq_nil_iff.mp hslots
    rw [endpointItems, map_trim_fields hitems hne hpad rfl hkept, filter_items]

/-- The default has no endpoints, so a list without any may be blank as well. -/
theorem readEndpoints_of_lists {es : List Endpoint}
    (h : lookup Variable.endpoints.key = some t) (hlists : ListsEndpoints es t.toList)
    (hhosts : ∀ e ∈ es, e.HasProperHost ∧ ',' ∉ e.host.toList) :
    readEndpoints lookup [] = .ok es := by
  rw [readEndpoints_of_lookup h, endpointItems_of_lists hlists hhosts]
  exact mapM_endpointOf fun e he => (hhosts e he).1

/-! ## The configuration -/

theorem spells_rendered (c : Config) : Spells c.rendered c where
  plain v _ := by
    refine ⟨String.ofList (c.written v), environment_key _ v, ?_⟩
    rw [String.toList_ofList]
    exact padded_self _
  endpoints := by
    refine ⟨String.ofList (c.written .endpoints), environment_key _ .endpoints,
      c.endpoints.map some, c.endpoints.map Endpoint.chars, by simp, ?_, ?_⟩
    · rw [List.map_map]
      exact List.forall₂_same.mpr fun s _ => padded_self s
    · rw [String.toList_ofList]
      exact padded_self _

/-- A configuration is read back from its written values, and from every environment that has them
with blanks around them, with blanks around each endpoint and with empty items in the list. -/
theorem written_reads_back (hc : c.Writable) :
    read c.rendered = .ok c ∧ ∀ lookup, Spells lookup c → read lookup = .ok c := by
  have hall : ∀ lookup, Spells lookup c → read lookup = .ok c := by
    intro lookup h
    obtain ⟨tname, hname, hnamepad⟩ := h.plain .workerName (by decide)
    obtain ⟨tidle, hidle, hidlepad⟩ := h.plain .idleTimeout (by decide)
    obtain ⟨tretry, hretry, hretrypad⟩ := h.plain .retryDelay (by decide)
    obtain ⟨tattempts, hattempts, hattemptspad⟩ := h.plain .submitAttempts (by decide)
    obtain ⟨tbackoff, hbackoff, hbackoffpad⟩ := h.plain .submitBackoff (by decide)
    obtain ⟨tends, hends, hlists⟩ := h.endpoints
    unfold read
    dsimp only
    rw [readName_of_padded hname hnamepad (trim_eq_self hc.name_head hc.name_last) hc.name_ne,
      readMillis_of_padded hidle hidlepad hc.idleTimeout,
      readMillis_of_padded hretry hretrypad hc.retryDelay,
      readAttempts_of_padded hattempts hattemptspad,
      readMillis_of_padded hbackoff hbackoffpad hc.submitBackoff,
      readEndpoints_of_lists hends hlists hc.hosts]
    -- All fields but the holds were read, and those are none by default.
    have hholds := hc.holds
    cases c
    subst hholds
    rfl
  exact ⟨hall _ (spells_rendered c), hall⟩

def nightShift : Config where
  name := "night shift"
  idleTimeout := .ofMillis 1500
  retryDelay := .ofMillis 0
  submitAttempts := 4294967295
  submitBackoff := .ofMillis 18446744073709551615
  endpoints := [⟨"::1", 5223⟩, ⟨"b.example.net", 0⟩]

/-- The values by hand, with a line feed, an ideographic space and a comma too many. -/
def nightShiftByHand : Variable → String
  | .workerName => "  night shift\n"
  | .idleTimeout => " 1500 "
  | .retryDelay => "0\u3000"
  | .submitAttempts => "4294967295"
  | .submitBackoff => "\t18446744073709551615"
  | .endpoints => " , ::1:5223\t,,b.example.net:0 ,"

theorem night_shift_reads_back :
    nightShift.Writable ∧ read nightShift.rendered = .ok nightShift ∧
      read (environment nightShiftByHand) = .ok nightShift := by
  have hwritable : nightShift.Writable := {
    holds := rfl
    name_ne := by decide
    name_head := by
      rintro ch ⟨⟩
      rfl
    name_last := by
      rintro ch ⟨⟩
      rfl
    idleTimeout := ⟨1500, rfl⟩
    retryDelay := ⟨0, rfl⟩
    submitBackoff := ⟨18446744073709551615, rfl⟩
    hosts := by
      refine List.forall_mem_cons.mpr ⟨⟨Endpoint.isHost_iff.mp rfl, by decide⟩, ?_⟩
      exact List.forall_mem_singleton.mpr ⟨Endpoint.isHost_iff.mp rfl, by decide⟩ }
  have hlists : ListsEndpoints nightShift.endpoints (nightShiftByHand .endpoints).toList := by
    refine ⟨[none, some ⟨"::1", 5223⟩, none, some ⟨"b.example.net", 0⟩, none],
      [[' '], " ::1:5223\t".toList, [], "b.example.net:0 ".toList, []], rfl, ?_, padded_self _⟩
    refine .cons ⟨[' '], [], allBlank_of_all rfl, allBlank_of_all rfl, rfl⟩ ?_
    refine .cons ⟨[' '], ['\t'], allBlank_of_all rfl, allBlank_of_all rfl, rfl⟩ ?_
    refine .cons (padded_self []) ?_
    exact .cons ⟨[], [' '], allBlank_of_all rfl, allBlank_of_all rfl, rfl⟩
      (.cons (padded_self []) .nil)
  have hspells : Spells (environment nightShiftByHand) nightShift := by
    refine ⟨fun v hv => ⟨_, environment_key _ v, ?_⟩, _, environment_key _ .endpoints, hlists⟩
    cases v with
    | workerName => exact ⟨[' ', ' '], ['\n'], allBlank_of_all rfl, allBlank_of_all rfl, rfl⟩
    | idleTimeout => exact ⟨[' '], [' '], allBlank_of_all rfl, allBlank_of_all rfl, rfl⟩
    | retryDelay => exact ⟨[], ['\u3000'], allBlank_of_all rfl, allBlank_of_all rfl, rfl⟩
    | submitAttempts => exact padded_self _
    | submitBackoff => exact ⟨['\t'], [], allBlank_of_all rfl, allBlank_of_all rfl, rfl⟩
    | endpoints => exact absurd rfl hv
  obtain ⟨hrendered, hall⟩ := written_reads_back hwritable
  exact ⟨hwritable, hrendered, hall _ hspells⟩

end Outbox.Config
