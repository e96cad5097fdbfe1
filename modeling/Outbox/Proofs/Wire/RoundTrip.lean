import Outbox.Endpoint
import Outbox.Proofs.Wire.Records
import Outbox.Proofs.Wire.Texts
import Outbox.Request

/-! # Requests and endpoints there and back

A text may give the fields of a request or of an endpoint in any order and with others among them,
or without their names, with any spaces, and a payload's keys in any order and more than once. It
is read all the same, and written in one way, from which the same is read again. No payload is ever
read that the written text would not give back. Main statement: `written_reads_the_same`. -/
namespace Outbox
set_option autoImplicit false

open Json

/-! ## Written forms -/

section
variable {α : Type} [Wire α]

theorem read?_of_laid {s : String} {t : Tree} (h : Token.Laid t.tokens s.toList) :
    Wire.read? s = (Wire.ofTree? t : Option α) := by
  rw [Wire.read?, parse?_of_laid h, Option.bind_some]

theorem laid_write {a : α} (h : (Wire.toJson a).Sound) :
    Token.Laid (Wire.toJson a).toTree.tokens (Wire.write a).toList := by
  rw [Wire.write, Value.compact, String.toList_ofList]
  exact laid_chars h

end

/-! ## Endpoints -/

namespace Endpoint

variable {e : Endpoint} {s : String}

def fields (e : Endpoint) : List (String × Tree) :=
  [("host", .text (some e.host)), ("port", .number (some e.port.toNat))]

/-- The text has the fields of the endpoint, with any spaces. -/
def SpeltBy (e : Endpoint) (s : String) : Prop :=
  ∃ t, Tree.IsRecord e.fields t ∧ Token.Laid t.tokens s.toList

theorem read?_of_speltBy (h : e.SpeltBy s) : Wire.read? s = some e := by
  obtain ⟨t, hrecord, hlaid⟩ := h
  have hfields : t.record? ["host", "port"] =
      some [.text (some e.host), .number (some e.port.toNat)] :=
    Tree.record?_of_isRecord hrecord (by simp [fields])
  have hport : (Tree.number (some e.port.toNat)).natural? UInt16.size = some e.port.toNat :=
    if_pos e.port.toNat_lt
  have hback : UInt16.ofNat e.port.toNat = e.port := UInt16.ofNat_toNat
  rw [read?_of_laid hlaid]
  simp [Wire.ofTree?, hfields, hport, hback, Tree.text?]

theorem sound_toJson (e : Endpoint) : (Wire.toJson e).Sound := by
  have hport : Value.IsWord e.port.toNat := by
    have := e.port.toNat_lt
    rw [Value.isWord_iff]
    omega
  have hkeys : ["host", "port"].Pairwise (· < ·) := by decide
  refine .object _ (Value.ordered_iff.mpr hkeys) ?_
  simp only [List.forall_mem_cons]
  exact ⟨.text e.host, .number _ hport, List.forall_mem_nil _⟩

theorem speltBy_write (e : Endpoint) : e.SpeltBy (Wire.write e) := by
  have hrecord : Tree.IsRecord e.fields (Wire.toJson e).toTree :=
    .object _ [] (.refl _) (List.forall_mem_nil _)
  exact ⟨_, hrecord, laid_write e.sound_toJson⟩

end Endpoint

/-! ## Requests -/

namespace Request

variable {r : Request} {s : String}

/-- The text has the fields of the request, with any spaces; the id and the payload may be written
in any way that is read as this id and this payload. -/
def SpeltBy (r : Request) (s : String) : Prop :=
  ∃ id payload t, Wire.ofTree? id = some r.jobId ∧
    payload.toValue? payloadDepth = some r.payload ∧
    Tree.IsRecord [("job_id", id), ("kind", .text (some r.kind)), ("payload", payload)] t ∧
    Token.Laid t.tokens s.toList

theorem ofTree?_eq_some_iff {t : Tree} :
    Wire.ofTree? t = some r ↔ ∃ id kind payload,
      t.record? ["job_id", "kind", "payload"] = some [id, kind, payload] ∧
      Wire.ofTree? id = some r.jobId ∧ kind.text? = some r.kind ∧
      payload.toValue? payloadDepth = some r.payload := by
  constructor
  · intro h
    obtain ⟨fields, hfields, h⟩ := Option.bind_eq_some_iff.mp h
    split at h
    · rename_i id kind payload
      obtain ⟨i, hi, h⟩ := Option.bind_eq_some_iff.mp h
      obtain ⟨k, hk, h⟩ := Option.bind_eq_some_iff.mp h
      obtain ⟨p, hp, h⟩ := Option.bind_eq_some_iff.mp h
      obtain rfl := Option.some.inj h
      exact ⟨id, kind, payload, hfields, hi, hk, hp⟩
    · cases h
  · rintro ⟨id, kind, payload, hfields, hid, hkind, hpayload⟩
    refine Option.bind_eq_some_iff.mpr ⟨_, hfields, ?_⟩
    refine Option.bind_eq_some_iff.mpr ⟨_, hid, ?_⟩
    refine Option.bind_eq_some_iff.mpr ⟨_, hkind, ?_⟩
    exact Option.bind_eq_some_iff.mpr ⟨_, hpayload, rfl⟩

theorem read?_of_speltBy (h : r.SpeltBy s) : Wire.read? s = some r := by
  obtain ⟨id, payload, t, hid, hpayload, hrecord, hlaid⟩ := h
  rw [read?_of_laid hlaid, ofTree?_eq_some_iff]
  exact ⟨id, _, payload, Tree.record?_of_isRecord hrecord (by simp), hid, rfl, hpayload⟩

theorem sound_toJson (h : r.payload.Sound) : (Wire.toJson r).Sound := by
  have hkeys : ["job_id", "kind", "payload"].Pairwise (· < ·) := by decide
  refine .object _ (Value.ordered_iff.mpr hkeys) ?_
  simp only [List.forall_mem_cons]
  exact ⟨.text _, .text r.kind, h, List.forall_mem_nil _⟩

theorem speltBy_write (h : r.payload.Sound) (hd : r.payload.depth ≤ payloadDepth) :
    r.SpeltBy (Wire.write r) := by
  have hid : Wire.ofTree? (.text (some r.jobId.text)) = some r.jobId := by
    change JobId.ofChars? r.jobId.text.toList = some r.jobId
    rw [JobId.text, String.toList_ofList, JobId.ofChars?_chars]
  refine ⟨_, _, (Wire.toJson r).toTree, hid, Tree.toValue?_toTree h hd,
    .object _ [] (.refl _) (List.forall_mem_nil _), laid_write (sound_toJson h)⟩

/-- What is read as a request has a payload that its written text holds. -/
theorem sound_of_read? (h : Wire.read? s = some r) :
    r.payload.Sound ∧ r.payload.depth ≤ payloadDepth := by
  obtain ⟨t, ht, hr⟩ := Option.bind_eq_some_iff.mp h
  obtain ⟨id, kind, payload, hfields, -, -, hpayload⟩ := ofTree?_eq_some_iff.mp hr
  refine Tree.sound_of_toValue? hpayload fun n hn => isWord_of_parse? ht ?_
  exact Tree.tokens_subset_of_record? hfields (by simp) hn

end Request

/-- A request is read back from its text if and only if its payload has words for numbers and
sorted maps for objects and is nested no deeper than a reader goes. Whatever text a request or an
endpoint was read from, it is read back from the text that is then written, and writing it again
gives the same text. Among the texts that are read are all those that have the fields. -/
theorem written_reads_the_same :
    (∀ r : Request, Wire.read? (Wire.write r) = some r ↔
      r.payload.Sound ∧ r.payload.depth ≤ Request.payloadDepth) ∧
    (∀ (s : String) (r : Request), Wire.read? s = some r →
      ∃ q, Wire.read? (Wire.write r) = some q ∧ q = r ∧ Wire.write q = Wire.write r) ∧
    (∀ (s : String) (e : Endpoint), Wire.read? s = some e →
      ∃ f, Wire.read? (Wire.write e) = some f ∧ f = e ∧ Wire.write f = Wire.write e) ∧
    (∀ (s : String) (r : Request), r.SpeltBy s → Wire.read? s = some r) ∧
    (∀ (s : String) (e : Endpoint), e.SpeltBy s → Wire.read? s = some e) := by
  refine ⟨fun r => ⟨Request.sound_of_read?, fun ⟨hsound, hdepth⟩ => ?_⟩, fun s r hr => ?_,
    fun _ e _ => ?_, fun _ _ => Request.read?_of_speltBy, fun _ _ => Endpoint.read?_of_speltBy⟩
  · exact Request.read?_of_speltBy (Request.speltBy_write hsound hdepth)
  · obtain ⟨hsound, hdepth⟩ := Request.sound_of_read? hr
    exact ⟨r, Request.read?_of_speltBy (Request.speltBy_write hsound hdepth), rfl, rfl⟩
  · exact ⟨e, Endpoint.read?_of_speltBy e.speltBy_write, rfl, rfl⟩

namespace Endpoint

def sample : Endpoint := ⟨"h", 5⟩

def sampleText : String := "\x7b\"port\": 5, \"via\":null,\"host\":\"h\"\x7d"

theorem sample_speltBy : sample.SpeltBy sampleText := by
  refine ⟨.object [(some "port", .number (some 5)), (some "via", .null),
    (some "host", .text (some "h"))], .object _ [(some "via", .null)] ?_ ?_, ?_⟩
  · exact .trans (.cons _ (.swap _ _ _)) (.swap _ _ _)
  · simp [fields]
  · have hlaid := Token.Laid.token .openObject nofun <| .token (.text "port") nofun <|
      .token .colon nofun <| .space ' ' rfl <|
      .token (.number 5 (by decide)) (fun _ _ => Token.ends_cons rfl _) <|
      .token .comma nofun <| .space ' ' rfl <| .token (.text "via") nofun <|
      .token .colon nofun <| .token .null nofun <| .token .comma nofun <|
      .token (.text "host") nofun <| .token .colon nofun <| .token (.text "h") nofun <|
      .token .closeObject nofun .nil
    exact hlaid

end Endpoint

namespace Request

def sample : Request :=
  ⟨JobId.ofNat 10, "\n", .object [("a", .number (-2)), ("b", .array [])]⟩

/-- Without the names of the fields, the id in bare digits, and a key of the payload twice. -/
def sampleText : String :=
  "[\"0000000000000000000000000000000A\",\"\\n\", \x7b\"b\":null,\"a\":-2,\"b\":[]\x7d]"

theorem sample_speltBy : sample.SpeltBy sampleText := by
  refine ⟨.text (some "0000000000000000000000000000000A"),
    .object [(some "b", .null), (some "a", .number (some (-2))), (some "b", .array [])], _,
    rfl, rfl, .array, ?_⟩
  have hlaid := Token.Laid.token .openArray nofun <|
    .token (.text "0000000000000000000000000000000A") nofun <| .token .comma nofun <|
    .token (.text "\n") nofun <| .token .comma nofun <| .space ' ' rfl <|
    .token .openObject nofun <| .token (.text "b") nofun <| .token .colon nofun <|
    .token .null nofun <| .token .comma nofun <| .token (.text "a") nofun <|
    .token .colon nofun <|
    .token (.number (-2) (by decide)) (fun _ _ => Token.ends_cons rfl _) <|
    .token .comma nofun <| .token (.text "b") nofun <| .token .colon nofun <|
    .token .openArray nofun <| .token .closeArray nofun <| .token .closeObject nofun <|
    .token .closeArray nofun .nil
  exact hlaid

theorem sample_sound : sample.payload.Sound ∧ sample.payload.depth ≤ payloadDepth := by
  have hkeys : ["a", "b"].Pairwise (· < ·) := by decide
  refine ⟨.object _ (Value.ordered_iff.mpr hkeys) ?_, by decide⟩
  simp only [List.forall_mem_cons]
  exact ⟨.number _ (by decide), .array _ (List.forall_mem_nil _), List.forall_mem_nil _⟩

end Request

/-- A request and an endpoint, each read from a text that is never written, are read again from what
is written then. -/
theorem sample_texts_read_the_same :
    Wire.write Request.sample = "\x7b\"job_id\":\"00000000-0000-0000-0000-00000000000a\"" ++
      ",\"kind\":\"\\n\",\"payload\":\x7b\"a\":-2,\"b\":[]\x7d\x7d" ∧
    (Request.sample.payload.Sound ∧ Request.sample.payload.depth ≤ Request.payloadDepth) ∧
    Wire.read? (Wire.write Request.sample) = some Request.sample ∧
    Request.sample.SpeltBy Request.sampleText ∧
    (Wire.read? Request.sampleText = some Request.sample ∧
      ∃ q, Wire.read? (Wire.write Request.sample) = some q ∧ q = Request.sample ∧
        Wire.write q = Wire.write Request.sample) ∧
    Endpoint.sample.SpeltBy Endpoint.sampleText ∧
    Wire.read? Endpoint.sampleText = some Endpoint.sample ∧
    ∃ f, Wire.read? (Wire.write Endpoint.sample) = some f ∧ f = Endpoint.sample ∧
      Wire.write f = Wire.write Endpoint.sample := by
  obtain ⟨hback, hrequest, hendpoint, hspelt, hspelt'⟩ := written_reads_the_same
  have hr := hspelt _ _ Request.sample_speltBy
  have he := hspelt' _ _ Endpoint.sample_speltBy
  exact ⟨rfl, Request.sample_sound, (hback _).mpr Request.sample_sound, Request.sample_speltBy,
    ⟨hr, hrequest _ _ hr⟩, Endpoint.sample_speltBy, he, hendpoint _ _ he⟩

end Outbox
