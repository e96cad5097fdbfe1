import Outbox.Endpoint

/-! # Endpoints and their texts

A text is read as an endpoint exactly if it spells one: a proper host, perhaps with a colon and a
numeral behind it, between blanks. An endpoint is read back from the text that is written for it
exactly if its host is proper. So whatever spelling was read, the endpoint settles: written and read
again it is the same. Main statement: `text_reads_back_iff`. -/
namespace Outbox.Endpoint
open Text
set_option autoImplicit false

variable {e : Endpoint} {s t : List Char}

/-- The host is not empty and has no blank in it. -/
def HasProperHost (e : Endpoint) : Prop := e.host ≠ "" ∧ ∀ c ∈ e.host.toList, isBlank c = false

/-- Texts of an endpoint, without blanks around them. A host with a colon needs its port. -/
inductive Spelling (e : Endpoint) : List Char → Prop
  | bare (hcolon : ':' ∉ e.host.toList) (hport : e.port = defaultPort) : Spelling e e.host.toList
  | full {digits : List Char} (hport : Numeral.IsNumeral e.port.toNat digits) :
      Spelling e (e.host.toList ++ ':' :: digits)

theorem isHost_iff : isHost e.host.toList = true ↔ e.HasProperHost := by
  rw [isHost, HasProperHost, Bool.and_eq_true, Bool.not_eq_true', List.isEmpty_eq_false_iff,
    Bool.not_eq_true', List.any_eq_false, Ne, String.toList_eq_nil_iff]
  simp only [Bool.not_eq_true]

theorem withHost_eq_ok_iff {port : UInt16} :
    withHost s port = .ok e ↔ e.HasProperHost ∧ s = e.host.toList ∧ port = e.port := by
  rw [← isHost_iff]
  unfold withHost
  constructor
  · split
    · rename_i hs
      rintro ⟨⟩
      exact ⟨by rwa [String.toList_ofList], String.toList_ofList.symm, rfl⟩
    · intro h
      cases h
  · rintro ⟨hs, rfl, rfl⟩
    rw [if_pos hs, String.ofList_toList]

theorem portOf_eq_ok_iff {port : UInt16} :
    portOf s = .ok port ↔ Numeral.IsNumeral port.toNat s := by
  have hread : Numeral.read UInt16.size s = .ok port.toNat ↔ Numeral.IsNumeral port.toNat s :=
    (Numeral.read_eq_ok_iff (by decide)).trans (and_iff_left port.toNat_lt_size)
  rw [← hread]
  unfold portOf
  cases h : Numeral.read UInt16.size s with
  | error p => simp
  | ok n =>
    have hn : n < UInt16.size := ((Numeral.read_eq_ok_iff (by decide)).mp h).2
    simp only [Except.ok.injEq]
    constructor
    · rintro rfl
      exact (UInt16.toNat_ofNat_of_lt' hn).symm
    · rintro rfl
      exact UInt16.ofNat_toNat

theorem ofChars_eq_ok_iff : ofChars s = .ok e ↔ e.HasProperHost ∧ e.Spelling (trim s) := by
  unfold ofChars
  constructor
  · split
    · rename_i host digits hcut
      intro h
      cases hport : portOf digits with
      | error p =>
        rw [hport] at h
        cases h
      | ok port =>
        rw [hport] at h
        obtain ⟨hhost, rfl, rfl⟩ := withHost_eq_ok_iff.mp h
        rw [(cutAtLast?_eq_some hcut).1]
        exact ⟨hhost, .full (portOf_eq_ok_iff.mp hport)⟩
    · rename_i hcut
      intro h
      obtain ⟨hhost, hs, hport⟩ := withHost_eq_ok_iff.mp h
      rw [hs] at hcut ⊢
      exact ⟨hhost, .bare (cutAtLast?_eq_none_iff.mp hcut) hport.symm⟩
  · rintro ⟨hhost, hs⟩
    generalize trim s = t at hs
    cases hs with
    | bare hcolon hport =>
      rw [cutAtLast?_eq_none_iff.mpr hcolon]
      exact withHost_eq_ok_iff.mpr ⟨hhost, rfl, hport.symm⟩
    | full hport =>
      have hcolon : ':' ∉ _ := fun hc => absurd (hport.isDigit_or_eq hc) (by decide)
      rw [cutAtLast?_append_cons _ _ hcolon]
      dsimp only
      rw [portOf_eq_ok_iff.mpr hport]
      exact withHost_eq_ok_iff.mpr ⟨hhost, rfl, rfl⟩

/-- No spelling of a proper host has a blank in it. -/
theorem Spelling.not_blank (h : e.Spelling t) (hhost : e.HasProperHost) :
    ∀ c ∈ t, isBlank c = false := by
  intro c hc
  cases h with
  | bare => exact hhost.2 c hc
  | full hport =>
    rcases List.mem_append.mp hc with hc | hc
    · exact hhost.2 c hc
    rcases List.mem_cons.mp hc with rfl | hc
    · rfl
    · exact hport.not_blank hc

/-- Blanks around a text are no part of what it spells. -/
theorem ofChars_eq_ok_iff_padded :
    ofChars s = .ok e ↔ e.HasProperHost ∧ ∃ t, e.Spelling t ∧ Padded t s := by
  rw [ofChars_eq_ok_iff]
  refine and_congr_right fun hhost => ⟨fun h => ⟨trim s, h, padded_trim s⟩, ?_⟩
  rintro ⟨t, hspell, hpad⟩
  rwa [hpad.trim_eq, trim_eq_self_of_forall (hspell.not_blank hhost)]

theorem spelling_chars (e : Endpoint) : e.Spelling e.chars := .full (Numeral.isNumeral_digits _)

theorem ofChars_chars_iff : ofChars e.chars = .ok e ↔ e.HasProperHost := by
  rw [ofChars_eq_ok_iff_padded]
  exact and_iff_left ⟨e.chars, spelling_chars e, padded_self e.chars⟩

/-- An endpoint is read back from its text exactly if its host is not empty and free of blanks.
A text is read as an endpoint exactly if it spells one with such a host between blanks, and the
text that is written for the endpoint is then read in the same way. -/
theorem text_reads_back_iff :
    (∀ e : Endpoint, parse e.text = .ok e ↔ e.HasProperHost) ∧
    ∀ s e, (parse s = .ok e ↔ e.HasProperHost ∧ ∃ t, e.Spelling t ∧ Padded t s.toList) ∧
      (parse s = .ok e → e.HasProperHost ∧ parse e.text = .ok e) := by
  have hback : ∀ e : Endpoint, parse e.text = .ok e ↔ e.HasProperHost := by
    intro e
    rw [parse, text, String.toList_ofList]
    exact ofChars_chars_iff
  refine ⟨hback, fun s e => ⟨ofChars_eq_ok_iff_padded, fun h => ?_⟩⟩
  have hhost := (ofChars_eq_ok_iff_padded.mp h).1
  exact ⟨hhost, (hback e).mpr hhost⟩

/-- A host with colons, a port with a sign and a zero in front, blanks at both ends. -/
theorem signed_port_settles :
    parse "\t::1:+05223 " = .ok ⟨"::1", 5223⟩ ∧ (⟨"::1", 5223⟩ : Endpoint).text = "::1:5223" ∧
      parse "::1:5223" = .ok ⟨"::1", 5223⟩ := by
  have hread : parse "\t::1:+05223 " = .ok ⟨"::1", 5223⟩ := rfl
  exact ⟨hread, rfl, ((text_reads_back_iff.2 _ _).2 hread).2⟩

end Outbox.Endpoint
