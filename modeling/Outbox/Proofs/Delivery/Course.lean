import Mathlib.Logic.Relation
import Outbox.Worker.Step

/-! # The course of messages

The part of a worker that messages pass through, from the mailbox over the timer queue into the
hands of the loop, beside what was posted, handled and handed to dispatch so far. `Move` lists the
small moves that this part can make. -/
namespace Outbox
set_option autoImplicit false

structure Posting where
  time : Instant
  delay : Duration
  message : Message

/-- A message as the loop handled it. -/
structure Handling where
  time : Instant
  entry : TimerQueue.Entry Message

/-- A job as it was handed to dispatch. -/
structure Handover where
  time : Instant
  job : JobId

def Posting.due (p : Posting) : Instant := Instant.after p.time p.delay

def Posting.letter (p : Posting) : Letter Message := ⟨p.due, p.message⟩

def Message.job? : Message → Option Job
  | .request job => some job
  | _ => none

def Message.isQuit : Message → Bool
  | .quit => true
  | _ => false

namespace JournalEntry

def posting? (e : JournalEntry) : Option Posting :=
  match e.event with
  | .posted delay message => some ⟨e.time, delay, message⟩
  | _ => none

def handling? (e : JournalEntry) : Option Handling :=
  match e.event with
  | .handled entry => some ⟨e.time, entry⟩
  | _ => none

/-- Dispatch drops the job at hand, begins a run of it, or has no thread for its executor. -/
def handover? (e : JournalEntry) : Option Handover :=
  match e.event with
  | .dropped job _ => some ⟨e.time, job⟩
  | .unstarted job => some ⟨e.time, job⟩
  | .begun _ job _ => some ⟨e.time, job⟩
  | _ => none

end JournalEntry

namespace Worker

/-- What was posted so far, first first. -/
def postings (w : Worker) : List Posting := (w.journal.filterMap JournalEntry.posting?).reverse

def handlings (w : Worker) : List Handling := (w.journal.filterMap JournalEntry.handling?).reverse

def handovers (w : Worker) : List Handover := (w.journal.filterMap JournalEntry.handover?).reverse

end Worker

structure Course where
  now : Instant
  interrupted : Bool
  installed : Bool
  stage : Stage
  quitting : Bool
  mailbox : Mailbox Message
  queue : TimerQueue Message
  picked : Option Job
  postings : List Posting
  handlings : List Handling
  handovers : List Handover

/-- The clock can still count the longest delay that it may have to. -/
def Instant.HasRoom (now : Instant) : Prop := now + Duration.farFuture.nanos < limit

namespace Course

/-! ## Small moves -/

/-- A loop that is gone takes no more letters. -/
def post (c : Course) (m : Message) (d : Duration) : Course :=
  if c.mailbox.closed then c
  else { c with
    mailbox := (c.mailbox.post c.now m d).2
    postings := c.postings ++ [⟨c.now, d, m⟩] }

def notify (c : Course) (m : Message) : Course := if c.installed then c.post m .zero else c

/-- The first letter leaves the mailbox; `rest` is what is left there. -/
def takeIn (c : Course) (letter : Letter Message) (rest : List (Letter Message)) : Course :=
  let c := { c with mailbox := { c.mailbox with letters := rest } }
  if letter.message.isQuit then { c with quitting := true }
  else { c with queue := c.queue.insert letter.due letter.message }

def purge (c : Course) : Course := { c with queue := (c.queue.removeAll Message.isIdle).2 }

/-- An entry leaves the queue; `rest` is what is left there. -/
def handle (c : Course) (e : TimerQueue.Entry Message) (rest : TimerQueue Message) : Course :=
  { c with
    queue := rest
    picked := e.item.job?.or c.picked
    quitting := if e.item.isQuit then true else c.quitting
    handlings := c.handlings ++ [⟨c.now, e⟩] }

def close (c : Course) : Course :=
  { c with installed := false, stage := .exited, queue := c.queue.clear, mailbox := c.mailbox.close }

def record (c : Course) (job : JobId) : Course :=
  { c with handovers := c.handovers ++ [⟨c.now, job⟩] }

def hand (c : Course) (job : Job) : Course := { c.record job.id with picked := none }

def renew (c : Course) (s : Stage) : Course :=
  { c with stage := s, quitting := false, mailbox := {}, queue := {}, picked := none }

inductive Move (c : Course) : Course → Prop
  | wait (t : Instant) (ht : c.now ≤ t) (hroom : t.HasRoom) : Move c { c with now := t }
  | interrupt : Move c { c with interrupted := true }
  | retire : Move c { c with installed := false }
  | post (m : Message) (d : Duration) (hm : m.isIdle = false)
      (hq : m.isQuit = true → c.interrupted = true)
      (ho : c.installed = true ∨ c.stage = .preparing) : Move c (c.post m d)
  | renew (s : Stage) (hs : c.stage = .absent ∧ s = .entering ∨ c.stage = .exited ∧ s = .absent) :
      Move c (c.renew s)
  | climb (s : Stage) (hfrom : c.stage ∈ [Stage.entering, .pointing, .opening, .awaitingOpen])
      (hto : s ∈ [Stage.pointing, .opening, .awaitingOpen, .preparing])
      (hi : c.stage = .entering → c.interrupted = false) : Move c { c with stage := s }
  | giveUp (hs : c.stage = .entering) (hi : c.interrupted = true) :
      Move c { c with stage := .exited }
  | install (hs : c.stage = .preparing) : Move c { c with installed := true, stage := .running }
  | take (letter : Letter Message) (rest : List (Letter Message)) (hs : c.stage = .running)
      (hl : c.mailbox.letters = letter :: rest) : Move c (c.takeIn letter rest)
  | purge : Move c c.purge
  | setIdle (due : Instant) (hs : c.stage = .running) (hd : c.now ≤ due) (hp : c.picked = none)
      (hl : c.mailbox.letters = []) (he : (c.queue.popDue c.now).1 = none) :
      Move c { c.purge with queue := c.purge.queue.insert due .idle }
  | handle (e : TimerQueue.Entry Message) (rest : TimerQueue Message) (hs : c.stage = .running)
      (hp : c.picked = none) (hl : c.mailbox.letters = [])
      (he : c.queue.popDue c.now = (some e, rest)) : Move c (c.handle e rest)
  | close (hs : c.stage = .running) (hp : c.picked = none) (hq : c.quitting = true) :
      Move c c.close
  | hand (job : Job) (hp : c.picked = some job) : Move c (c.hand job)

theorem post_stage (c : Course) (m : Message) (d : Duration) : (c.post m d).stage = c.stage := by
  unfold post
  split <;> rfl

theorem record_notify (c : Course) (m : Message) (job : JobId) :
    (c.notify m).record job = (c.record job).notify m := by
  unfold notify
  split
  · rename_i hi
    rw [if_pos (show (c.record job).installed = true from hi)]
    unfold post
    split
    · rename_i hb
      rw [if_pos (show (c.record job).mailbox.closed = true from hb)]
    · rename_i hb
      rw [if_neg (show ¬ (c.record job).mailbox.closed = true from hb)]
      rfl
  · rename_i hi
    rw [if_neg (show ¬ (c.record job).installed = true from hi)]

abbrev Moves : Course → Course → Prop := Relation.ReflTransGen Move

theorem Moves.of_eq {c d : Course} (h : d = c) : c.Moves d := h ▸ .refl

theorem Moves.notify (c : Course) {m : Message} (hm : m.isIdle = false)
    (hq : m.isQuit = true → c.interrupted = true) : c.Moves (c.notify m) := by
  unfold Course.notify
  split
  · rename_i hi
    exact .single (.post m .zero hm hq (.inl hi))
  · exact .refl

end Course

end Outbox
