import Outbox.Proofs.Delivery.Course

/-! # The vigil

The part of a worker that decides when it is idle: the keep-alive count and the idle flag, which
change at once, the messages by which the loop hears of them later, the idle timers, and what the
loop was told to do at rest. Beside it stands what happened so far, last first. `Move` says once
what a step can do to it. Main statement: `Kept.move`, every move keeps the vigil in order. -/
namespace Outbox
set_option autoImplicit false

/-! ## What the loop is told -/

inductive Control where
  | disarm
  | arm
  /-- To ask for a stop at rest. -/
  | stop
  deriving DecidableEq, Repr

/-- A control message on its way to the loop. -/
structure Instruction where
  due : Instant
  control : Control
  deriving DecidableEq, Repr

def Message.control? : Message → Option Control
  | .disarmIdle => some .disarm
  | .armIdle => some .arm
  | .armStop => some .stop
  | .request _ | .idle | .quit => none

/-- Whether handling it takes the idle timer away. -/
def Message.stirs : Message → Bool
  | .request _ | .disarmIdle | .armIdle => true
  | .idle | .armStop | .quit => false

def instruction? (due : Instant) (m : Message) : Option Instruction :=
  m.control?.map fun control => ⟨due, control⟩

namespace Loop

/-- In the order in which they are handled: those in the queue before those in the mailbox. -/
def controls (l : Loop) : List Instruction :=
  l.queue.entries.filterMap (fun e => instruction? e.due e.item) ++
    l.mailbox.letters.filterMap fun letter => instruction? letter.due letter.message

def timers (l : Loop) : List (TimerQueue.Entry Message) := l.queue.entries.filter (·.item.isIdle)

/-- Whether the loop is asked to quit. -/
def asked (l : Loop) : Bool := l.quitting || l.mailbox.letters.any (·.message.isQuit)

end Loop

/-! ## What happened so far -/

namespace JournalEntry

/-- When a message was handled that takes the timer away, or a job was handed to dispatch. -/
def effort? (e : JournalEntry) : Option Instant :=
  match e.event with
  | .handled entry => if entry.item.stirs then some e.time else none
  | .dropped _ _ | .unstarted _ | .begun _ _ _ => some e.time
  | _ => none

def ring? (e : JournalEntry) : Option (TimerQueue.Entry Message) :=
  match e.event with
  | .handled entry => if entry.item.isIdle then some entry else none
  | _ => none

def signal? (e : JournalEntry) : Option Signal :=
  match e.event with
  | .signal s => some s
  | _ => none

def isMark (e : JournalEntry) : Bool :=
  match e.event with
  | .markedIdle => true
  | _ => false

def isAcceptance (e : JournalEntry) : Bool :=
  match e.event with
  | .accepted _ => true
  | _ => false

/-- Whether a journal tells of a mark after the last submission that was accepted. -/
def marked : List JournalEntry → Bool
  | [] => false
  | e :: r =>
    match e.event with
    | .markedIdle => true
    | .accepted _ => false
    | _ => marked r

end JournalEntry

namespace Worker

def efforts (w : Worker) : List Instant := w.journal.filterMap JournalEntry.effort?

/-- The idle timers that were handled. -/
def rings (w : Worker) : List (TimerQueue.Entry Message) := w.journal.filterMap JournalEntry.ring?

def signals (w : Worker) : List Signal := w.journal.filterMap JournalEntry.signal?

/-- How often the worker was marked idle. -/
def marks (w : Worker) : Nat := (w.journal.filter JournalEntry.isMark).length

/-- How many submissions were accepted, retries among them. -/
def accepted (w : Worker) : Nat := (w.journal.filter JournalEntry.isAcceptance).length

/-- The signal is given on the way from `w` to `v`. -/
def Gives (s : Signal) (w v : Worker) : Prop := w.signals.count s < v.signals.count s

instance (s : Signal) (w v : Worker) : Decidable (Gives s w v) :=
  inferInstanceAs (Decidable (w.signals.count s < v.signals.count s))

/-- Whether the worker was marked idle since it last accepted a job. -/
def marked (w : Worker) : Bool := JournalEntry.marked w.journal

/-- The loop is at work on a job, from its picking to the end of a run on the loop. -/
def busy (w : Worker) : Bool := w.loop.picked.isSome || w.runs.any (·.kind.onLoop)

end Worker

structure Vigil where
  now : Instant
  timeout : Duration
  installed : Bool
  stage : Stage
  asked : Bool
  keepAlive : KeepAlive
  idle : Bool
  /-- Whether push delivery is registered. -/
  pushed : Bool
  controls : List Instruction
  timers : List (TimerQueue.Entry Message)
  idleArmed : Bool
  stopArmed : Bool
  dirty : Bool
  busy : Bool
  efforts : List Instant
  rings : List (TimerQueue.Entry Message)
  signals : List Signal
  marks : Nat
  accepted : Nat
  marked : Bool

namespace Vigil

/-! ## What callers do -/

/-- What is sent now; nothing to a loop that producers do not know. -/
def words (c : Vigil) (k : Control) : List Instruction := if c.installed then [⟨c.now, k⟩] else []

def hold (c : Vigil) : Vigil :=
  { c with keepAlive := c.keepAlive.hold, controls := c.controls ++ c.words .disarm }

/-- Only the release that ends the last hold is sent, and those that find none. -/
def release (c : Vigil) : Vigil :=
  { c with
    keepAlive := c.keepAlive.release
    controls := c.controls ++ if c.keepAlive.release.isHeld then [] else c.words .arm }

def mark (c : Vigil) : Vigil :=
  { c with
    idle := true
    controls := c.controls ++ c.words .stop
    marks := c.marks + 1
    marked := true }

def accept (c : Vigil) : Vigil :=
  { c with
    idle := false
    signals := if c.idle then .startKeepAlive :: c.signals else c.signals
    accepted := c.accepted + 1
    marked := false }

def silence (c : Vigil) : Vigil :=
  { c with installed := false, asked := c.asked || c.installed }

def renew (c : Vigil) (s : Stage) (busy : Bool) : Vigil :=
  { c with
    stage := s
    asked := false
    controls := []
    timers := []
    idleArmed := false
    stopArmed := false
    dirty := true
    busy }

def prepare (c : Vigil) : Vigil :=
  { c with installed := true, stage := .running, idleArmed := !c.keepAlive.isHeld }

/-! ## What the loop does -/

def close (c : Vigil) : Vigil :=
  { c with installed := false, stage := .exited, controls := [], timers := [] }

def serve (c : Vigil) : Vigil :=
  { c with timers := [], dirty := true, busy := true, efforts := c.now :: c.efforts }

/-- `rest` is what the loop is still told afterwards. -/
def obey (c : Vigil) (rest : List Instruction) : Control → Vigil
  | .stop => { c with controls := rest, stopArmed := true, dirty := true }
  | .arm => { c with
      controls := rest, timers := [], idleArmed := true, dirty := true
      efforts := c.now :: c.efforts }
  | .disarm => { c with
      controls := rest, timers := [], idleArmed := false, dirty := true
      efforts := c.now :: c.efforts }

def ring (c : Vigil) (e : TimerQueue.Entry Message) (rest : List (TimerQueue.Entry Message)) :
    Vigil :=
  { c with
    timers := rest
    dirty := true
    rings := e :: c.rings
    signals := if c.pushed then .fullyIdle :: c.signals else c.signals }

/-- `e` is the timer that is set if one is. -/
def rest (c : Vigil) (e : TimerQueue.Entry Message) : Vigil :=
  { c with
    timers := if c.idleArmed then if c.keepAlive.isHeld then [] else [e] else c.timers
    stopArmed := false
    dirty := false
    signals := if c.stopArmed && c.idle then .stopIfIdle :: c.signals else c.signals }

def hand (c : Vigil) (busy : Bool) : Vigil := { c with busy, efforts := c.now :: c.efforts }

inductive Round (c : Vigil) : Vigil → Prop
  | close (hq : c.asked = true) : Round c c.close
  | serve (hq : c.asked = false) : Round c c.serve
  | obey (k : Instruction) (rest : List Instruction) (hq : c.asked = false)
      (hk : c.controls = k :: rest) : Round c (c.obey rest k.control)
  | ring (e : TimerQueue.Entry Message) (rest : List (TimerQueue.Entry Message))
      (hq : c.asked = false) (he : c.timers = e :: rest) (hdue : e.due ≤ c.now)
      (hfirst : ∀ k ∈ c.controls, e.due ≤ k.due) : Round c (c.ring e rest)
  | rest (e : TimerQueue.Entry Message) (hq : c.asked = false) (hk : c.controls = [])
      (hdue : e.due = Instant.after c.now c.timeout) (hnew : e ∉ c.timers) : Round c (c.rest e)
  | block (hq : c.asked = false) : Round c c

inductive Move (c : Vigil) : Vigil → Prop
  | still : Move c c
  | wait (t : Instant) (ht : c.now ≤ t) : Move c { c with now := t }
  | push (pushed : Bool) : Move c { c with pushed }
  | hold : Move c c.hold
  | release : Move c c.release
  | mark : Move c c.mark
  | accept : Move c c.accept
  | silence : Move c c.silence
  | renew (s : Stage) (busy : Bool) (hfrom : c.stage ≠ .running) (hto : s ≠ .running)
      (hb : busy = true → c.busy = true) : Move c (c.renew s busy)
  | climb (s : Stage) (hfrom : c.stage ≠ .running) (hlive : c.stage ≠ .exited)
      (hto : s ≠ .running) : Move c { c with stage := s }
  | prepare (hs : c.stage = .preparing) : Move c c.prepare
  | round {d : Vigil} (hs : c.stage = .running) (hb : c.busy = false) (hd : Round c d) : Move c d
  | hand (busy : Bool) (hb : c.busy = true) : Move c (c.hand busy)
  | launch (busy : Bool) (hb : c.busy = true) : Move c (c.hold.hand busy)
  /-- A launch that finds no thread for the executor. -/
  | launchNone (busy : Bool) (hb : c.busy = true) : Move c (c.hold.release.hand busy)
  | leave (busy : Bool) (hb : busy = true → c.busy = true) : Move c { c with busy }
  | free (busy : Bool) (hb : busy = true → c.busy = true) : Move c { c.release with busy }

section Frame
variable {c d : Vigil}

theorem Round.frame (h : c.Round d) : d.now = c.now ∧ d.timeout = c.timeout := by
  cases h with
  | obey k rest => cases k.control <;> exact ⟨rfl, rfl⟩
  | _ => exact ⟨rfl, rfl⟩

/-- A loop that is asked to quit does nothing else. -/
theorem Round.of_asked (h : c.Round d) (hq : c.asked = true) : d = c.close := by
  cases h with
  | close => rfl
  | serve hq' | obey _ _ hq' | ring _ _ hq' | rest _ hq' | block hq' => cases hq.symm.trans hq'

theorem Move.timeout (h : c.Move d) : d.timeout = c.timeout := by
  cases h with
  | round _ _ hd => exact hd.frame.2
  | _ => rfl

theorem Move.now_le (h : c.Move d) : c.now ≤ d.now := by
  cases h with
  | wait t ht => exact ht
  | round _ _ hd => exact Nat.le_of_eq hd.frame.1.symm
  | _ => exact Nat.le_refl _

/-- A signal is given more often only by giving that signal. -/
theorem eq_of_count_lt {s t : Signal} {before after : List Signal}
    (h : after = before ∨ after = s :: before) (hc : before.count t < after.count t) : s = t := by
  rcases h with rfl | rfl
  · exact absurd hc (Nat.lt_irrefl _)
  · by_cases hs : s = t
    · exact hs
    · rw [List.count_cons_of_ne hs] at hc
      exact absurd hc (Nat.lt_irrefl _)

theorem count_of_ne {s t : Signal} (h : t ≠ s) (b : Bool) (signals : List Signal) :
    (if b then t :: signals else signals).count s = signals.count s := by
  split
  · exact List.count_cons_of_ne h
  · rfl

/-- What a move signals, and on what grounds. -/
inductive Announced (c : Vigil) : Vigil → Prop
  | nothing {d : Vigil} (h : d.signals = c.signals) : Announced c d
  | work (hi : c.idle = true) : Announced c c.accept
  | idle (e : TimerQueue.Entry Message) (rest : List (TimerQueue.Entry Message))
      (hp : c.pushed = true) (hq : c.asked = false) (he : c.timers = e :: rest)
      (hdue : e.due ≤ c.now) (hfirst : ∀ k ∈ c.controls, e.due ≤ k.due) : Announced c (c.ring e rest)
  | stop (e : TimerQueue.Entry Message) (ha : c.stopArmed = true) (hi : c.idle = true) :
      Announced c (c.rest e)

theorem Round.announced (h : c.Round d) : c.Announced d := by
  cases h with
  | close | serve | block => exact .nothing rfl
  | obey k rest => cases k.control <;> exact .nothing rfl
  | ring e rest hq he hdue hfirst =>
    cases hp : c.pushed with
    | true => exact .idle e rest hp hq he hdue hfirst
    | false => exact .nothing (if_neg (Bool.eq_false_iff.mp hp))
  | rest e =>
    cases hstop : c.stopArmed && c.idle with
    | true =>
      obtain ⟨ha, hi⟩ := Bool.and_eq_true_iff.mp hstop
      exact .stop e ha hi
    | false => exact .nothing (if_neg (Bool.eq_false_iff.mp hstop))

theorem Move.announced (h : c.Move d) : c.Announced d := by
  cases h with
  | round _ _ hd => exact hd.announced
  | accept =>
    cases hi : c.idle with
    | true => exact .work hi
    | false => exact .nothing (if_neg (Bool.eq_false_iff.mp hi))
  | _ => exact .nothing rfl

end Frame

/-! ## What the loop will have heard -/

theorem of_mem_words {c : Vigil} {j : Instruction} {k : Control} (h : j ∈ c.words k) :
    j = ⟨c.now, k⟩ ∧ c.installed = true := by
  unfold words at h
  split at h
  · exact ⟨List.mem_singleton.mp h, ‹_›⟩
  · cases h

def settle (armed : Bool) (k : Instruction) : Bool :=
  match k.control with
  | .arm => true
  | .disarm => false
  | .stop => armed

/-- Whether the timer will be armed when the loop has handled all that it is told. -/
def settled (c : Vigil) : Bool := c.controls.foldl settle c.idleArmed

theorem settled_obey {c : Vigil} {k : Instruction} {rest : List Instruction}
    (hk : c.controls = k :: rest) : (c.obey rest k.control).settled = c.settled := by
  unfold settled
  rw [hk, List.foldl_cons]
  obtain ⟨due, control⟩ := k
  cases control <;> rfl

/-! ## Order -/

structure Kept (c : Vigil) : Prop where
  /-- Only a running loop is told anything. -/
  early : c.stage ≠ .running → c.installed = false ∧ c.controls = [] ∧ c.timers = []
  told : c.stage = .running → c.installed = true ∨ c.asked = true
  past : ∀ k ∈ c.controls, k.due ≤ c.now
  single : c.timers.length ≤ 1
  unarmed : c.idleArmed = false → c.timers = []
  calm : c.busy = true → c.timers = []
  fresh : c.stage ≠ .running → c.stage ≠ .exited → c.dirty = true
  marked : c.idle = c.marked
  stopping : c.stopArmed = true → c.dirty = true
  efforts : ∀ t ∈ c.efforts, t ≤ c.now
  /-- Every mark is good for one call at most. -/
  stops : c.signals.count .stopIfIdle + c.controls.countP (·.control = .stop) +
    c.stopArmed.toNat ≤ c.marks

namespace Kept
variable {c d : Vigil}

theorem told_nothing (h : c.Kept) (hs : c.stage ≠ .running) : c.controls = [] := (h.early hs).2.1

theorem no_timer (h : c.Kept) (hs : c.stage ≠ .running) : c.timers = [] := (h.early hs).2.2

theorem running_of_installed (h : c.Kept) (hi : c.installed = true) : c.stage = .running := by
  by_cases hs : c.stage = .running
  · exact hs
  · cases (h.early hs).1.symm.trans hi

theorem installed_of_running (h : c.Kept) (hs : c.stage = .running) (hq : c.asked = false) :
    c.installed = true :=
  (h.told hs).resolve_right fun ha => Bool.noConfusion (hq.symm.trans ha)

theorem asked_silence (h : c.Kept) (hs : c.stage = .running) : c.silence.asked = true :=
  Bool.or_eq_true_iff.mpr (h.told hs).symm

/-- A caller changes the count or the flag, and sends word of it or not. -/
theorem tell (h : c.Kept) {k : Control} {ks : List Instruction} (hks : ks = [] ∨ ks = c.words k)
    (keepAlive : KeepAlive) {idle marked : Bool} (hmarked : idle = marked) {marks : Nat}
    (hmarks : c.marks + (if k = .stop then 1 else 0) ≤ marks) :
    Kept { c with keepAlive, controls := c.controls ++ ks, idle, marks, marked } := by
  have hmem : ∀ x ∈ ks, x = ⟨c.now, k⟩ ∧ c.installed = true := by
    intro x hx
    rcases hks with rfl | rfl
    · cases hx
    · exact of_mem_words hx
  have hcount : ks.countP (·.control = .stop) ≤ if k = .stop then 1 else 0 := by
    rcases hks with rfl | rfl
    · exact Nat.zero_le _
    · unfold words
      split
      · rw [List.countP_singleton]
        simp
      · exact Nat.zero_le _
  refine { h with early := fun hs => ?_, past := ?_, marked := hmarked, stops := ?_ }
  · obtain ⟨hi, hk, ht⟩ := h.early hs
    have hnone : ks = [] := List.eq_nil_iff_forall_not_mem.mpr fun x hx =>
      Bool.noConfusion (hi.symm.trans (hmem x hx).2)
    exact ⟨hi, by rw [hk, hnone]; rfl, ht⟩
  · intro x hx
    rcases List.mem_append.mp hx with hx | hx
    · exact h.past x hx
    · exact (hmem x hx).1 ▸ Nat.le_refl _
  · have hstops := h.stops
    rw [List.countP_append]
    dsimp only
    omega

theorem hold (h : c.Kept) : c.hold.Kept :=
  h.tell (k := .disarm) (.inr rfl) _ h.marked (Nat.le_refl _)

theorem release (h : c.Kept) : c.release.Kept := by
  refine h.tell (k := .arm) ?_ _ h.marked (Nat.le_refl _)
  split
  · exact .inl rfl
  · exact .inr rfl

theorem mark (h : c.Kept) : c.mark.Kept := h.tell (k := .stop) (.inr rfl) _ rfl (Nat.le_refl _)

theorem accept (h : c.Kept) : c.accept.Kept := by
  refine { h with marked := rfl, stops := ?_ }
  have hstops := h.stops
  have hsame : c.accept.signals.count .stopIfIdle = c.signals.count .stopIfIdle :=
    count_of_ne (by decide) _ _
  rw [hsame]
  exact hstops

theorem leave (h : c.Kept) {busy : Bool} (hb : busy = true → c.busy = true) :
    Kept { c with busy } :=
  { h with calm := fun ht => h.calm (hb ht) }

theorem hand (h : c.Kept) (busy : Bool) (hb : c.busy = true) : (c.hand busy).Kept :=
  { h with
    calm := fun _ => h.calm hb
    efforts := List.forall_mem_cons.mpr ⟨Nat.le_refl _, h.efforts⟩ }

/-- What the loop handles takes the timers away, but for a request to ask for a stop. -/
theorem obey (h : c.Kept) (hs : c.stage = .running) {k : Instruction}
    {rest : List Instruction} (hk : c.controls = k :: rest) : (c.obey rest k.control).Kept := by
  have hrest : ∀ x ∈ rest, x.due ≤ c.now := fun x hx => h.past x (hk ▸ List.mem_cons_of_mem k hx)
  have hstops := h.stops
  rw [hk, List.countP_cons] at hstops
  cases hc : k.control with
  | stop =>
    refine { h with
      early := fun hn => absurd hs hn, past := hrest, fresh := fun hn => absurd hs hn
      stopping := fun _ => rfl, stops := ?_ }
    rw [hc] at hstops
    have hone : (decide (Control.stop = Control.stop) : Bool) = true := rfl
    rw [if_pos hone] at hstops
    change c.signals.count _ + rest.countP _ + 1 ≤ c.marks
    omega
  | arm | disarm =>
    refine { h with
      early := fun hn => absurd hs hn, past := hrest, single := Nat.zero_le _
      unarmed := fun _ => rfl, calm := fun _ => rfl, fresh := fun hn => absurd hs hn
      stopping := fun _ => rfl
      efforts := List.forall_mem_cons.mpr ⟨Nat.le_refl _, h.efforts⟩, stops := ?_ }
    change c.signals.count _ + rest.countP _ + c.stopArmed.toNat ≤ c.marks
    omega

theorem ring (h : c.Kept) (hs : c.stage = .running) {e : TimerQueue.Entry Message}
    {rest : List (TimerQueue.Entry Message)} (he : c.timers = e :: rest) :
    (c.ring e rest).Kept := by
  have hsingle := h.single
  rw [he, List.length_cons] at hsingle
  have hrest : rest = [] := List.length_eq_zero_iff.mp (by omega)
  have hstops := h.stops
  refine { h with
    early := fun hn => absurd hs hn, single := hrest ▸ Nat.zero_le _, unarmed := fun _ => hrest
    calm := fun _ => hrest, fresh := fun hn => absurd hs hn, stopping := fun _ => rfl
    stops := ?_ }
  have hsame : (c.ring e rest).signals.count .stopIfIdle = c.signals.count .stopIfIdle :=
    count_of_ne (by decide) _ _
  rw [hsame]
  exact hstops

theorem rest (h : c.Kept) (hs : c.stage = .running) (hb : c.busy = false) (hk : c.controls = [])
    (e : TimerQueue.Entry Message) : (c.rest e).Kept := by
  have hstops := h.stops
  rw [hk] at hstops
  refine { h with
    early := fun hn => absurd hs hn, single := ?_, unarmed := fun hu => ?_
    calm := fun hbusy => Bool.noConfusion (hb.symm.trans hbusy)
    fresh := fun hn => absurd hs hn, stopping := nofun, stops := ?_ }
  · change (if c.idleArmed then if c.keepAlive.isHeld then [] else [e] else c.timers).length ≤ 1
    split
    · split
      · exact Nat.zero_le _
      · exact Nat.le_refl _
    · exact h.single
  · change (if c.idleArmed then if c.keepAlive.isHeld then [] else [e] else c.timers) = []
    have hu : c.idleArmed = false := hu
    rw [hu]
    exact h.unarmed hu
  · change List.count _ (if c.stopArmed && c.idle then Signal.stopIfIdle :: c.signals else c.signals)
      + c.controls.countP _ + 0 ≤ c.marks
    rw [hk]
    split
    · rename_i hstop
      rw [(Bool.and_eq_true_iff.mp hstop).1] at hstops
      rw [List.count_cons_self]
      exact hstops
    · omega

theorem round (h : c.Kept) (hs : c.stage = .running) (hb : c.busy = false) (hd : c.Round d) :
    d.Kept := by
  cases hd with
  | close hq =>
    have hstops := h.stops
    refine { h with
      early := fun _ => ⟨rfl, rfl, rfl⟩, told := nofun, past := List.forall_mem_nil _
      single := Nat.zero_le _, unarmed := fun _ => rfl, calm := fun _ => rfl
      fresh := fun _ hn => absurd rfl hn, stops := ?_ }
    change c.signals.count _ + 0 + c.stopArmed.toNat ≤ c.marks
    omega
  | serve =>
    exact { h with
      early := fun hn => absurd hs hn, single := Nat.zero_le _, unarmed := fun _ => rfl
      calm := fun _ => rfl, fresh := fun hn => absurd hs hn, stopping := fun _ => rfl
      efforts := List.forall_mem_cons.mpr ⟨Nat.le_refl _, h.efforts⟩ }
  | obey k rest _ hk => exact h.obey hs hk
  | ring e rest _ he => exact h.ring hs he
  | rest e _ hk => exact h.rest hs hb hk e
  | block => exact h

theorem move (h : c.Kept) (hm : c.Move d) : d.Kept := by
  cases hm with
  | still => exact h
  | wait t ht =>
    exact { h with
      past := fun k hk => Nat.le_trans (h.past k hk) ht
      efforts := fun x hx => Nat.le_trans (h.efforts x hx) ht }
  | push => exact { h with }
  | hold => exact h.hold
  | release => exact h.release
  | mark => exact h.mark
  | accept => exact h.accept
  | silence =>
    exact { h with
      early := fun hs => ⟨rfl, (h.early hs).2⟩, told := fun hs => .inr (h.asked_silence hs) }
  | renew s busy hfrom hto hb =>
    have hstops := h.stops
    refine { h with
      early := fun _ => ⟨(h.early hfrom).1, rfl, rfl⟩, told := fun hs => absurd hs hto
      past := List.forall_mem_nil _, single := Nat.zero_le _, unarmed := fun _ => rfl
      calm := fun _ => rfl, fresh := fun _ _ => rfl, stopping := nofun, stops := ?_ }
    change c.signals.count _ + 0 + 0 ≤ c.marks
    omega
  | climb s hfrom hlive hto =>
    exact { h with
      early := fun _ => h.early hfrom, told := fun hs => absurd hs hto
      fresh := fun _ _ => h.fresh hfrom hlive }
  | prepare hs =>
    have hn : c.stage ≠ .running := fun hr => Stage.noConfusion (hs.symm.trans hr)
    exact { h with
      early := fun hs' => absurd rfl hs', told := fun _ => .inl rfl
      unarmed := fun _ => h.no_timer hn, fresh := fun hs' => absurd rfl hs' }
  | round hs hb hd => exact h.round hs hb hd
  | hand busy hb => exact h.hand busy hb
  | launch busy hb => exact h.hold.hand busy hb
  | launchNone busy hb => exact h.hold.release.hand busy hb
  | leave busy hb => exact h.leave hb
  | free busy hb => exact h.release.leave hb

end Kept

end Vigil

end Outbox
