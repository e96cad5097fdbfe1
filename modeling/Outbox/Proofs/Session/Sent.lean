import Outbox.Proofs.Session.Drain

/-! # What the command line sends

For every text that comes in, the lines that are not blank are executed as requests, each once and
in their order, with the numbers that the uris and the answers carry counted from one, and nothing
is counted but that. Main statement: `lines_sent_in_order`; it speaks of every schedule in which no
line is refused and all are executed in the end, and of the program itself, which follows one of
these. -/
namespace Outbox
set_option autoImplicit false

namespace CommandLine
open Text

/-- The request that a line asks for. -/
def requestOf (peer : String) (number : Nat) (body : String) : Request where
  jobId := .ofNat number
  kind := "message.send"
  payload := .ofMembers [
    ("uri", .text ("content://courier/messages/" ++ toString number)),
    ("to", .text peer),
    ("body", .text body),
    ("attachment", .null)]

def transactionOf (number : Nat) : TransactionId := ⟨"loopback-" ++ toString number⟩

/-- The numbers of the lines, counted from one; they are machine words. -/
def numbered {α : Type} (f : Nat → String → α) (lines : List String) : List α :=
  lines.mapIdx fun i line => f ((i + 1) % UInt64.size) line

/-- Every line has been sent, and nothing else; nothing but that is counted. -/
structure Sent (peer : String) (lines : List String) (s : Session) : Prop where
  sent : s.connection.sent = numbered (requestOf peer) lines
  answered : s.worker.answers = numbered (fun number _ => .ok (transactionOf number)) lines
  counted : ∃ succeeded startedAt,
    s.worker.statistics = { dispatched := lines.length, succeeded, startedAt }

theorem uri_ofId (number : UInt64) : (MessageUri.ofId Session.messagesBase ⟨number⟩).text =
    "content://courier/messages/" ++ toString number.toNat := by
  have hbase : dropEnd (· == '/') Session.messagesBase.toList ++ ['/'] =
      "content://courier/messages/".toList := by decide
  have hdigits : toString number.toNat = String.ofList (Numeral.digits number.toNat) := rfl
  rw [MessageUri.ofId, hdigits, ← List.singleton_append, ← List.append_assoc, hbase,
    String.ofList_append, String.ofList_toList]

theorem request_errand (peer : String) (number : UInt64) (body : String) :
    (Session.errand peer number body).request = requestOf peer number.toNat body := by
  unfold MessageJob.request requestOf
  rw [← uri_ofId]
  rfl

theorem toNat_number (n : Nat) : (UInt64.ofNat n).toNat = n % UInt64.size :=
  UInt64.toNat_ofNat'

theorem requests_errands (peer : String) (lines : List String) :
    (Session.errands peer lines).map (·.request) = numbered (requestOf peer) lines := by
  refine List.ext_getElem (by simp [Session.errands, numbered]) fun i hi hj => ?_
  simp only [Session.errands, numbered, List.getElem_map, List.getElem_mapIdx, request_errand,
    toNat_number]

theorem answers_eq (lines : List String) : Loopback.answers lines.length =
    numbered (fun number _ => .ok (transactionOf number)) lines := by
  refine List.ext_getElem (by simp [Loopback.answers, numbered]) fun i hi hj => ?_
  simp only [Loopback.answers, numbered, List.getElem_map, List.getElem_range, List.getElem_mapIdx,
    Loopback.transaction, transactionOf, toNat_number]

/-- What a schedule has come to in which all lines are executed. -/
theorem sent_of_sound {peer : String} {lines : List String} {done held rest : List MessageJob}
    {s : Session} (h : s.Sound peer lines done held rest)
    (hall : lines.length ≤ s.connection.sent.length) : Sent peer lines s := by
  have hsent : s.connection.sent = done.map (·.request) := by
    rw [h.connection, Loopback.sent, Loopback.after, List.reverse_reverse]
  have hlength := congrArg List.length h.order
  rw [Session.length_errands, List.length_append, List.length_append] at hlength
  rw [hsent, List.length_map] at hall
  obtain rfl : held = [] := List.length_eq_zero_iff.mp (by omega)
  obtain rfl : rest = [] := List.length_eq_zero_iff.mp (by omega)
  have hdone : done = Session.errands peer lines := by
    rw [h.order, List.append_nil, List.append_nil]
  have hcount : done.length = lines.length := by
    rw [hdone, Session.length_errands]
  have hcounted : ∃ succeeded, s.worker.Counted lines.length succeeded := by
    rw [← hcount]
    cases h.hand with
    | free _ _ _ hc | leaving _ _ _ hc => exact ⟨_, hc⟩
    | answered _ m _ _ _ hc => exact ⟨m, hc⟩
  obtain ⟨succeeded, startedAt, hstats⟩ := hcounted
  refine ⟨?_, ?_, succeeded, startedAt, ?_⟩
  · rw [hsent, hdone, requests_errands]
  · rw [h.answers, hcount, answers_eq]
  · rw [Worker.statistics, hstats, Tickets.size, h.calm.alone]
    rfl

theorem session_eq {lookup : Config.Lookup} {config : Config} {input : List UInt8} {text : String}
    (hc : Config.read lookup = .ok config) (hu : String.fromUTF8? ⟨input.toArray⟩ = some text)
    (now : Instant) : session lookup input now =
      sendAll ((lookup peerVariable).getD defaultPeer) (Session.start config now)
        (messagesOf text) := by
  unfold session
  rw [hc]
  exact foldlM_takeLine hu _ _

/-- Whatever the schedule, the lines are sent in their order once all are sent; and the program
sends them all and ends well. -/
theorem lines_sent_in_order {lookup : Config.Lookup} {config : Config} {input : List UInt8}
    {text : String} {now : Instant} (hc : Config.read lookup = .ok config)
    (hu : String.fromUTF8? ⟨input.toArray⟩ = some text) (hroom : now.HasRoom) :
    let peer := (lookup peerVariable).getD defaultPeer
    let lines := messagesOf text
    (∀ s, Session.Taking peer config now lines s → lines.length ≤ s.connection.sent.length →
      Sent peer lines s) ∧
    ∃ s, session lookup input now = .ok s ∧ Session.Taking peer config now lines s ∧
      lines.length ≤ s.connection.sent.length ∧ Sent peer lines s ∧
      run lookup input now =
        ⟨0, (s.worker.statistics.toJson Timestamp.text).pretty ++ "\n", ""⟩ := by
  intro peer lines
  have hall : ∀ s, Session.Taking peer config now lines s →
      lines.length ≤ s.connection.sent.length → Sent peer lines s := by
    intro s hs hlength
    obtain ⟨done, held, rest, hsound⟩ := hs.sound hroom
    exact sent_of_sound hsound hlength
  have hstart : Session.Taking peer config now [] (Session.start config now) :=
    Session.Taking.opening.settle Session.patience
  obtain ⟨s, hsend, htaking, hdrained⟩ :=
    Session.sendAll_drained lines hstart (Session.start_drained peer config hroom)
  rw [List.nil_append] at htaking hdrained
  have hsession : session lookup input now = .ok s := (session_eq hc hu now).trans hsend
  have hlength : lines.length = s.connection.sent.length := by
    rw [hdrained.sound.connection, Loopback.sent, Loopback.after, List.reverse_reverse,
      List.length_map, Session.length_errands]
  have hsent := hall s htaking (Nat.le_of_eq hlength)
  refine ⟨hall, s, hsession, htaking, Nat.le_of_eq hlength, hsent, ?_⟩
  unfold run
  rw [hsession]

/-- A text whose second line is blank, whose third one ends with a carriage return too, and whose
last one has no end. -/
def letter : String := "hi\n \t\nyou there\r\nbye"

theorem letter_sent_line_by_line :
    Config.read (fun _ => none) = .ok {} ∧
      String.fromUTF8? ⟨(encoded letter.toList).toArray⟩ = some letter ∧ Instant.HasRoom 0 ∧
      ∃ s, session (fun _ => none) (encoded letter.toList) 0 = .ok s ∧
        s.connection.sent = [requestOf "echo@localhost" 1 "hi",
          requestOf "echo@localhost" 2 "you there", requestOf "echo@localhost" 3 "bye"] ∧
        s.worker.answers = [.ok ⟨"loopback-1"⟩, .ok ⟨"loopback-2"⟩, .ok ⟨"loopback-3"⟩] ∧
        s.worker.statistics.dispatched = 3 ∧ s.worker.statistics.failed = 0 ∧
        (run (fun _ => none) (encoded letter.toList) 0).code = 0 := by
  have hread : Config.read (fun _ => none) = .ok {} := rfl
  have htext : String.fromUTF8? ⟨(encoded letter.toList).toArray⟩ = some letter :=
    (fromUTF8?_encoded letter.toList).trans (congrArg some String.ofList_toList)
  have hlines : messagesOf letter = ["hi", "you there", "bye"] := by decide
  have hroom : Instant.HasRoom 0 := by
    unfold Instant.HasRoom
    decide
  obtain ⟨_, s, hsession, _, _, hsent, hrun⟩ := lines_sent_in_order hread htext hroom
  obtain ⟨hrequests, hanswers, succeeded, startedAt, hstats⟩ := hsent
  rw [hlines] at hrequests hanswers hstats
  exact ⟨hread, htext, hroom, s, hsession, hrequests, hanswers, by rw [hstats]; rfl,
    by rw [hstats], by rw [hrun]⟩

end CommandLine

end Outbox
