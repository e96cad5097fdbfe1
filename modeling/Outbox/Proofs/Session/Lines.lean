import Mathlib.Data.List.Induction
import Outbox.CommandLine

/-! # The lines of a text

The input is read as bytes and cut at the line feeds before any of it is decoded. Since no other
character has the byte of a line feed in its encoding, the lines are those of the text that the
input encodes. Main statement: `foldlM_takeLine`, what is sent are the lines of the text that are
not blank, one after the other. -/
namespace Outbox.CommandLine
set_option autoImplicit false
open Text

/-- One carriage return at the end goes with the line feed after it. -/
def withoutReturn (s : List Char) : List Char :=
  if s.getLast? = some '\r' then s.dropLast else s

/-- What stands before each line feed, and what stands after the last one if anything does. -/
def linesOf (text : String) : List String :=
  let pieces := fields '\n' text.toList
  ((pieces.dropLast.map withoutReturn) ++ pieces.getLast?.toList.filter (!·.isEmpty)).map
    String.ofList

/-- The lines that are sent: all but the blank ones. -/
def messagesOf (text : String) : List String :=
  (linesOf text).filter fun line => !(trim line.toList).isEmpty

/-! ## Encoded characters -/

def encoded (s : List Char) : List UInt8 := s.flatMap String.utf8EncodeChar

theorem byteArray_encoded (s : List Char) : (⟨(encoded s).toArray⟩ : ByteArray) = s.utf8Encode :=
  ByteArray.ext (List.data_toByteArray (l := encoded s)).symm

theorem fromUTF8?_encoded (s : List Char) :
    String.fromUTF8? ⟨(encoded s).toArray⟩ = some (String.ofList s) := by
  have hb : (⟨(encoded s).toArray⟩ : ByteArray) = (String.ofList s).toByteArray :=
    (byteArray_encoded s).trans String.toByteArray_ofList.symm
  rw [hb, String.fromUTF8?, dif_pos (String.ofList s).isValidUTF8]
  rfl

theorem eq_encoded_of_fromUTF8? {input : List UInt8} {text : String}
    (h : String.fromUTF8? ⟨input.toArray⟩ = some text) : input = encoded text.toList := by
  have hbytes : text.toByteArray = ⟨input.toArray⟩ := by
    unfold String.fromUTF8? at h
    split at h
    · cases h
      rfl
    · cases h
  have harray : (⟨(encoded text.toList).toArray⟩ : ByteArray) = ⟨input.toArray⟩ := by
    rw [byteArray_encoded, String.utf8Encode_toList, hbytes]
  exact (List.toArray_inj (ByteArray.mk.inj harray)).symm

theorem encoded_newline : String.utf8EncodeChar '\n' = [newline] := rfl

/-- All bytes of a longer encoding are above those of the single ones. -/
theorem newline_not_mem_encoded {c : Char} (hc : c ≠ '\n') :
    newline ∉ String.utf8EncodeChar c := by
  have hval : c.val.toNat ≠ 10 := fun h => hc (Char.ext (UInt32.toNat_inj.mp h))
  intro hm
  unfold String.utf8EncodeChar at hm
  have hbyte : ∀ n : Nat, newline = UInt8.ofNat n → n % 256 = 10 := fun n h =>
    ((UInt8.toNat_inj.mpr h).trans UInt8.toNat_ofNat').symm
  dsimp only at hm
  split at hm
  · have := hbyte _ (List.mem_singleton.mp hm)
    omega
  · split at hm
    · simp only [List.mem_cons, List.not_mem_nil, or_false] at hm
      rcases hm with hm | hm <;> have := hbyte _ hm <;> omega
    · split at hm <;> simp only [List.mem_cons, List.not_mem_nil, or_false] at hm
      · rcases hm with hm | hm | hm <;> have := hbyte _ hm <;> omega
      · rcases hm with hm | hm | hm | hm <;> have := hbyte _ hm <;> omega

/-! ## Cutting before decoding -/

theorem rawLines_newline (r : List UInt8) : rawLines (newline :: r) = [newline] :: rawLines r := by
  rw [rawLines, List.foldr_cons, ← rawLines]
  cases rawLines r with
  | nil => rfl
  | cons l ls => exact if_pos rfl

theorem rawLines_cons {b : UInt8} (hb : b ≠ newline) (r : List UInt8) :
    rawLines (b :: r) = (b :: (rawLines r).headD []) :: (rawLines r).tail := by
  rw [rawLines, List.foldr_cons, ← rawLines]
  cases rawLines r with
  | nil => rfl
  | cons l ls => exact if_neg hb

/-- Bytes that end no line belong to the line that begins after them. -/
theorem rawLines_append {bs : List UInt8} (hne : bs ≠ []) (hb : newline ∉ bs) (r : List UInt8) :
    rawLines (bs ++ r) = (bs ++ (rawLines r).headD []) :: (rawLines r).tail := by
  induction bs with
  | nil => exact absurd rfl hne
  | cons b bs ih =>
    obtain ⟨hhead, htail⟩ := not_or.mp (mt List.mem_cons.mpr hb)
    rw [List.cons_append, rawLines_cons (Ne.symm hhead)]
    by_cases hbs : bs = []
    · subst hbs
      rfl
    · rw [ih hbs htail]
      rfl

/-- The pieces of a text with the line feeds that end them. -/
def ended (pieces : List (List Char)) : List (List Char) :=
  pieces.dropLast.map (· ++ ['\n']) ++ pieces.getLast?.toList.filter (!·.isEmpty)

theorem rawLines_encoded (s : List Char) :
    rawLines (encoded s) = (ended (fields '\n' s)).map encoded := by
  induction s with
  | nil => rfl
  | cons c r ih =>
    have hcons : encoded (c :: r) = String.utf8EncodeChar c ++ encoded r := List.flatMap_cons
    obtain ⟨f, fs, hf⟩ := List.exists_cons_of_ne_nil (fields_ne_nil '\n' r)
    rw [hf] at ih
    by_cases hc : c = '\n'
    · subst hc
      rw [hcons, encoded_newline, List.singleton_append, rawLines_newline, ih, fields, if_pos rfl,
        hf]
      rfl
    · have hne : String.utf8EncodeChar c ≠ [] := by
        refine List.ne_nil_of_length_pos ?_
        rw [String.length_utf8EncodeChar]
        exact c.utf8Size_pos
      rw [hcons, rawLines_append hne (newline_not_mem_encoded hc), ih, fields, if_neg hc, hf]
      cases fs with
      | nil =>
        cases f with
        | nil => simp [ended, encoded]
        | cons d f => simp [ended, encoded]
      | cons g gs => simp [ended, encoded]

theorem newline_not_mem_fields (s : List Char) : ∀ f ∈ fields '\n' s, '\n' ∉ f := by
  induction s with
  | nil => simp [fields]
  | cons c r ih =>
    obtain ⟨f, fs, hf⟩ := List.exists_cons_of_ne_nil (fields_ne_nil '\n' r)
    rw [hf] at ih
    obtain ⟨hhead, htail⟩ := List.forall_mem_cons.mp ih
    unfold fields
    split
    · rw [hf]
      exact List.forall_mem_cons.mpr ⟨List.not_mem_nil, ih⟩
    · rename_i hc
      rw [hf]
      refine List.forall_mem_cons.mpr ⟨?_, htail⟩
      exact List.not_mem_cons_of_ne_of_not_mem (Ne.symm hc) hhead

theorem withoutEnd_newline (s : List Char) : withoutEnd (s ++ ['\n']) = withoutReturn s := by
  induction s using List.reverseRecOn with
  | nil => rfl
  | append_singleton s c ih =>
    by_cases hc : c = '\r'
    · simp [withoutEnd, withoutReturn, hc]
    · simp [withoutEnd, withoutReturn, hc]

theorem withoutEnd_of_not_mem {s : List Char} (h : '\n' ∉ s) : withoutEnd s = s := by
  have hr : '\n' ∉ s.reverse := fun hm => h (List.mem_reverse.mp hm)
  unfold withoutEnd
  split
  · rename_i heq
    exact absurd (heq ▸ List.mem_cons_self) hr
  · rename_i heq
    exact absurd (heq ▸ List.mem_cons_self) hr
  · rfl

theorem linesOf_eq (text : String) : linesOf text =
    (ended (fields '\n' text.toList)).map fun piece => String.ofList (withoutEnd piece) := by
  have hlast : ∀ f ∈ (fields '\n' text.toList).getLast?.toList.filter (!·.isEmpty),
      withoutEnd f = f := by
    intro f hf
    have hmem := List.mem_of_getLast? (Option.mem_toList.mp (List.mem_filter.mp hf).1)
    exact withoutEnd_of_not_mem (newline_not_mem_fields _ f hmem)
  unfold linesOf ended
  simp only [List.map_append, List.map_map, Function.comp_def, withoutEnd_newline]
  congr 1
  exact List.map_congr_left fun f hf => congrArg String.ofList (hlast f hf).symm

/-! ## What is sent -/

/-- Sends the messages one after the other until one is refused. -/
def sendAll (peer : String) (s : Session) (bodies : List String) : Except Mishap Session :=
  bodies.foldlM (fun s body => (s.send peer body).mapError .refused) s

theorem sendAll_append (peer : String) (s : Session) (bodies more : List String) :
    sendAll peer s (bodies ++ more) = (sendAll peer s bodies).bind fun s => sendAll peer s more :=
  List.foldlM_append

/-- The message that a piece of the text asks for, unless it is blank. -/
def messageOf (piece : List Char) : List String :=
  [String.ofList (withoutEnd piece)].filter fun line => !(trim line.toList).isEmpty

theorem messagesOf_eq (text : String) :
    messagesOf text = (ended (fields '\n' text.toList)).flatMap messageOf := by
  have hpieces : ∀ pieces : List (List Char),
      ((pieces.map fun piece => String.ofList (withoutEnd piece)).filter fun line =>
        !(trim line.toList).isEmpty) = pieces.flatMap messageOf := by
    intro pieces
    induction pieces with
    | nil => rfl
    | cons piece pieces ih =>
      rw [List.flatMap_cons, ← ih, messageOf, ← List.filter_append]
      rfl
  rw [messagesOf, linesOf_eq, hpieces]

theorem takeLine_encoded (peer : String) (s : Session) (piece : List Char) :
    takeLine peer s (encoded piece) = sendAll peer s (messageOf piece) := by
  have htext : lineText? (encoded piece) = some (String.ofList (withoutEnd piece)) := by
    rw [lineText?, fromUTF8?_encoded, Option.map_some, String.toList_ofList]
  unfold takeLine messageOf
  rw [htext]
  dsimp only
  cases hblank : (trim (String.ofList (withoutEnd piece)).toList).isEmpty with
  | true =>
    rw [List.filter_cons_of_neg (by simp only [hblank, Bool.not_true, Bool.false_eq_true,
      not_false_eq_true])]
    rfl
  | false =>
    rw [List.filter_cons_of_pos (by simp only [hblank, Bool.not_false])]
    simp only [sendAll, List.filter_nil, List.foldlM_cons, List.foldlM_nil]
    cases s.send peer (String.ofList (withoutEnd piece)) <;> rfl

theorem foldlM_takeLine {input : List UInt8} {text : String}
    (h : String.fromUTF8? ⟨input.toArray⟩ = some text) (peer : String) (s : Session) :
    (rawLines input).foldlM (takeLine peer) s = sendAll peer s (messagesOf text) := by
  have hpieces : ∀ (pieces : List (List Char)) (s : Session),
      (pieces.map encoded).foldlM (takeLine peer) s =
        sendAll peer s (pieces.flatMap messageOf) := by
    intro pieces
    induction pieces with
    | nil => exact fun s => rfl
    | cons piece pieces ih =>
      intro s
      rw [List.map_cons, List.foldlM_cons, takeLine_encoded, List.flatMap_cons, sendAll_append]
      exact bind_congr fun s => ih s
  rw [eq_encoded_of_fromUTF8? h, rawLines_encoded, hpieces, ← messagesOf_eq]

end Outbox.CommandLine
