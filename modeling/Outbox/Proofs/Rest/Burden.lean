import Mathlib.Algebra.GroupWithZero.Nat
import Outbox.Proofs.Rest.Spin
import Outbox.Proofs.Retries.Resubmission

/-! # What is left for a loop to do

While the clock stands still and nobody posts anything, a message that is due is handled once, a
job at hand is dispatched once, and an executor ends once. `burden` counts these with weights: a
job may become one at hand, that one an executor, which tells the loop of its hold when it starts
and of its release when it ends; and whatever is handled makes the loop come to rest once more.
Main statements: `burden_iterate`, a round that does not block lowers the burden or leads to a loop
that spins, and `burden_of_step`, no other step from inside raises it. -/
namespace Outbox
set_option autoImplicit false

/-! ## Messages -/

def Message.weight : Message → Nat
  | .request _ => 6
  | _ => 2

theorem Message.two_le_weight (m : Message) : 2 ≤ m.weight := by
  cases m with
  | request job => exact (by decide : 2 ≤ 6)
  | _ => exact Nat.le_refl _

namespace TimerQueue

theorem sum_place_le {α : Type} (f : Entry α → Nat) (e : Entry α) (l : List (Entry α)) :
    ((place e l).map f).sum ≤ f e + (l.map f).sum := by
  induction l with
  | nil => exact Nat.le_refl _
  | cons g r ih =>
    unfold place
    split
    · exact Nat.le_refl _
    · split
      · simp only [List.map_cons, List.sum_cons]
        omega
      · simp only [List.map_cons, List.sum_cons]
        omega

/-- What is not due weighs nothing. -/
def dueWeight (q : TimerQueue Message) (now : Instant) : Nat :=
  (q.entries.map fun e => if e.due ≤ now then e.item.weight else 0).sum

variable {q : TimerQueue Message} {now due : Instant}

theorem dueWeight_insert_le (q : TimerQueue Message) (now due : Instant) (m : Message) :
    (q.insert due m).dueWeight now ≤ (if due ≤ now then m.weight else 0) + q.dueWeight now :=
  sum_place_le _ _ q.entries

theorem dueWeight_removeAll_le (q : TimerQueue Message) (p : Message → Bool) :
    (q.removeAll p).2.dueWeight now ≤ q.dueWeight now := by
  have hfilter : ∀ l : List (Entry Message),
      ((l.filter fun e => !p e.item).map fun e => if e.due ≤ now then e.item.weight else 0).sum ≤
        (l.map fun e => if e.due ≤ now then e.item.weight else 0).sum := by
    intro l
    induction l with
    | nil => exact Nat.le_refl _
    | cons e l ih =>
      rw [List.filter_cons]
      split
      · exact Nat.add_le_add_left ih _
      · exact Nat.le_trans ih (Nat.le_add_left _ _)
  exact hfilter q.entries

theorem dueWeight_popDue {q' : TimerQueue Message} {e : Entry Message}
    (h : q.popDue now = (some e, q')) : q.dueWeight now = e.item.weight + q'.dueWeight now := by
  obtain ⟨hentries, _, hdue⟩ := popDue_eq_some h
  unfold dueWeight
  rw [hentries, List.map_cons, List.sum_cons, if_pos hdue]

theorem dueWeight_of_late (h : ∀ e ∈ q.entries, now < e.due) : q.dueWeight now = 0 := by
  refine List.sum_eq_zero_iff_forall_eq_nat.mpr fun n hn => ?_
  obtain ⟨e, he, rfl⟩ := List.mem_map.mp hn
  exact if_neg (Nat.not_le.mpr (h e he))

end TimerQueue

/-! ## Loops -/

namespace Loop

def letterWeight (l : Loop) : Nat := (l.mailbox.letters.map (·.message.weight)).sum

/-- What a loop still has to do by itself. -/
def load (l : Loop) (now : Instant) : Nat :=
  l.queue.dueWeight now + l.letterWeight + (if l.picked.isSome then 4 else 0) + l.dirty.toNat +
    if l.stage = .running then 1 else 0

variable {l : Loop} {now : Instant}

theorem load_post_le (l : Loop) (now t : Instant) (m : Message) (d : Duration) :
    ({ l with mailbox := (l.mailbox.post t m d).2 } : Loop).load now ≤ l.load now + m.weight := by
  have hletters : ({ l with mailbox := (l.mailbox.post t m d).2 } : Loop).letterWeight ≤
      l.letterWeight + m.weight := by
    unfold letterWeight Mailbox.post
    dsimp only
    split
    · exact Nat.le_add_right _ _
    · refine Nat.le_of_eq ?_
      simp only [List.map_append, List.map_cons, List.map_nil, List.sum_append, List.sum_cons,
        List.sum_nil, Nat.add_zero]
  unfold load
  dsimp only
  omega

theorem dueWeight_takeInAll_le (l : Loop) (now : Instant) :
    (Worker.takeInAll l).queue.dueWeight now ≤ l.queue.dueWeight now + l.letterWeight := by
  have hfold : ∀ (letters : List (Letter Message)) (k : Loop),
      (letters.foldl Worker.takeIn k).queue.dueWeight now ≤
        k.queue.dueWeight now + (letters.map (·.message.weight)).sum := by
    intro letters
    induction letters with
    | nil => exact fun k => Nat.le_refl _
    | cons letter letters ih =>
      intro k
      have hone : (Worker.takeIn k letter).queue.dueWeight now ≤
          k.queue.dueWeight now + letter.message.weight := by
        have hinsert := TimerQueue.dueWeight_insert_le k.queue now letter.due letter.message
        unfold Worker.takeIn
        split
        · exact Nat.le_add_right _ _
        · refine Nat.le_trans hinsert ?_
          split <;> omega
      have hrest := ih (Worker.takeIn k letter)
      rw [List.foldl_cons, List.map_cons, List.sum_cons]
      omega
  exact hfold l.mailbox.letters l

/-- A message weighs more than what it leaves to do. -/
theorem load_handledLoop (l : Loop) (now : Instant) (m : Message) :
    (Worker.handledLoop l m).load now < l.load now + m.weight := by
  have hpurged : (l.queue.removeAll Message.isIdle).2.dueWeight now ≤ l.queue.dueWeight now :=
    TimerQueue.dueWeight_removeAll_le l.queue Message.isIdle
  cases m with
  | request job =>
    have hload : (Worker.handledLoop l (.request job)).load now =
        (l.queue.removeAll Message.isIdle).2.dueWeight now + l.letterWeight + 4 + 1 +
          if l.stage = .running then 1 else 0 := rfl
    have hweight : (Message.request job).weight = 6 := rfl
    rw [hload, hweight]
    unfold load
    omega
  | disarmIdle | armIdle =>
    have hload : ∀ idleArmed, ({ Worker.removeIdle l with dirty := true, idleArmed } : Loop).load
        now = (l.queue.removeAll Message.isIdle).2.dueWeight now + l.letterWeight +
          (if l.picked.isSome then 4 else 0) + 1 + if l.stage = .running then 1 else 0 :=
      fun _ => rfl
    refine Nat.lt_of_lt_of_le ?_ (Nat.add_le_add_left (Message.two_le_weight _) _)
    unfold Worker.handledLoop
    rw [hload]
    unfold load
    omega
  | idle | armStop | quit =>
    refine Nat.lt_of_lt_of_le ?_ (Nat.add_le_add_left (Message.two_le_weight _) _)
    change l.queue.dueWeight now + l.letterWeight + (if l.picked.isSome then 4 else 0) + 1 +
      (if l.stage = .running then 1 else 0) < _
    unfold load
    omega

end Loop

namespace Worker
variable {config : Config} {w v : Worker} {l : Label} {r : Run}

/-- The runs beside the loop. -/
def executors (w : Worker) : Nat := w.runs.countP fun r => !r.kind.onLoop

def burden (w : Worker) : Nat := w.loop.load w.now + 2 * w.executors

/-! ## Rounds -/

theorem eq_zero_of_after_le {now : Instant} {d : Duration} (h : Instant.after now d ≤ now) :
    d = .zero := by
  have hle := Nat.le_trans (Instant.le_after now d) h
  have hfar : 0 < Duration.farFuture.nanos := by decide
  obtain ⟨nanos, hlt⟩ := d
  obtain rfl : nanos = 0 := by
    dsimp only at hle
    omega
  rfl

theorem dueWeight_restedQueue_le (w : Worker)
    (h : w.loop.idleArmed = true → w.keepAlive.isHeld = false → w.config.idleTimeout ≠ .zero) :
    w.restedQueue.dueWeight w.now ≤ w.loop.queue.dueWeight w.now := by
  have hpurged : (removeIdle w.loop).queue.dueWeight w.now ≤ w.loop.queue.dueWeight w.now :=
    TimerQueue.dueWeight_removeAll_le w.loop.queue Message.isIdle
  unfold restedQueue
  split
  · rename_i harmed
    split
    · exact hpurged
    · rename_i hheld
      have hlate : ¬ Instant.after w.now w.config.idleTimeout ≤ w.now := fun hle =>
        h harmed (Bool.eq_false_iff.mpr hheld) (eq_zero_of_after_le hle)
      have hinsert := TimerQueue.dueWeight_insert_le (removeIdle w.loop).queue w.now
        (Instant.after w.now w.config.idleTimeout) .idle
      rw [if_neg hlate, Nat.zero_add] at hinsert
      exact Nat.le_trans hinsert hpurged
  · exact Nat.le_refl _

theorem resting_of_late (hl : w.loop.mailbox.letters = []) (hq : w.loop.quitting = false)
    (hd : w.loop.dirty = false) (hlate : ∀ e ∈ w.loop.queue.entries, w.now < e.due) :
    w.resting = true := by
  have hnone : (w.loop.queue.entries.any fun e => e.due ≤ w.now) = false := by
    refine List.any_eq_false.mpr fun e he => ?_
    simpa using hlate e he
  unfold resting
  rw [hl, hq, hd, hnone]
  rfl

theorem load_of_loopFree (hfree : w.loopFree = true) : w.loop.load w.now =
    w.loop.queue.dueWeight w.now + w.loop.letterWeight + w.loop.dirty.toNat + 1 := by
  obtain ⟨hstage, hpicked, _⟩ := loopFree_facts hfree
  unfold Loop.load
  rw [hpicked, if_pos hstage]
  rfl

/-- What the loop has still to do once its letters are in the queue. -/
theorem load_takenIn (hfree : w.loopFree = true) (queue : TimerQueue Message)
    (dirty stopArmed : Bool) :
    ({ takeInAll w.loop with queue, dirty, stopArmed } : Loop).load w.now =
      queue.dueWeight w.now + dirty.toNat + 1 := by
  obtain ⟨hstage, hpicked, _⟩ := loopFree_facts hfree
  obtain ⟨hkeepStage, hkeepPicked, hletters⟩ := takeInAll_facts w.loop
  unfold Loop.load Loop.letterWeight
  rw [hkeepPicked, hpicked, hkeepStage, if_pos hstage, hletters]
  rfl

theorem load_exitLoop (w : Worker) : w.exitLoop.loop.load w.now =
    (if w.loop.picked.isSome then 4 else 0) + w.loop.dirty.toNat := by
  change 0 + 0 + (if w.loop.picked.isSome then 4 else 0) + w.loop.dirty.toNat + 0 = _
  omega

theorem loopFree_takenIn (hfree : w.loopFree = true) :
    (w.withLoop (takeInAll w.loop)).loopFree = true := by
  obtain ⟨hkeepStage, hkeepPicked, _⟩ := takeInAll_facts w.loop
  unfold loopFree at hfree ⊢
  exact hkeepStage.symm ▸ hkeepPicked.symm ▸ hfree

/-- A loop that does not rest and has nothing due has letters. -/
theorem letterWeight_pos (hr : w.resting = false) (hq : (takeInAll w.loop).quitting = false)
    (hd : w.loop.dirty = false) (hlate : ∀ e ∈ (takeInAll w.loop).queue.entries, w.now < e.due) :
    0 < w.loop.letterWeight := by
  cases hl : w.loop.mailbox.letters with
  | nil =>
    rw [takeInAll_of_nil hl] at hq hlate
    exact absurd (resting_of_late hl hq hd hlate) (Bool.eq_false_iff.mp hr)
  | cons letter letters =>
    have hletter := letter.message.two_le_weight
    have hweight : w.loop.letterWeight =
        letter.message.weight + (letters.map (·.message.weight)).sum := by
      unfold Loop.letterWeight
      rw [hl]
      rfl
    omega

/-- A round that does not block brings the loop nearer to its rest, unless it sets a timer that is
due at once. -/
theorem burden_iterate (h : w.Watched) (hfree : w.loopFree = true) (hr : w.resting = false) :
    w.iterate.burden < w.burden ∨ w.iterate.Spins := by
  obtain ⟨htidy, halike⟩ := h.tidy.takeInAll
  have htaken := Loop.dueWeight_takeInAll_le w.loop w.now
  have hbefore := load_of_loopFree hfree
  have hgoes := iterate_goes h
  generalize w.iterate = v at hgoes
  cases hgoes with
  | exits =>
    refine .inl (Nat.add_lt_add_right ?_ _)
    have hload := load_exitLoop (w.withLoop (takeInAll w.loop))
    change (w.withLoop (takeInAll w.loop)).exitLoop.loop.load w.now =
      (if (takeInAll w.loop).picked.isSome then 4 else 0) + (takeInAll w.loop).dirty.toNat at hload
    rw [halike.picked, (loopFree_facts hfree).2.1, halike.dirty, Option.isSome_none,
      if_neg Bool.false_ne_true] at hload
    change (w.withLoop (takeInAll w.loop)).exitLoop.loop.load w.now < _
    omega
  | handles e queue journal _ hpop =>
    refine .inl (Nat.add_lt_add_right ?_ _)
    have hhandled := Loop.load_handledLoop { takeInAll w.loop with queue } w.now e.item
    have hpopped := TimerQueue.dueWeight_popDue hpop
    have hload : ({ takeInAll w.loop with queue } : Loop).load w.now = _ :=
      load_takenIn hfree queue (takeInAll w.loop).dirty (takeInAll w.loop).stopArmed
    rw [halike.dirty] at hload
    change (handledLoop { takeInAll w.loop with queue } e.item).load w.now < _
    omega
  | rests journal hq hpop hd =>
    by_cases hat : (w.loop.idleArmed = true ∧ w.keepAlive.isHeld = false) ∧
        w.config.idleTimeout = .zero
    · obtain ⟨⟨harmed, hheld⟩, hzero⟩ := hat
      obtain ⟨_, _, hletters⟩ := takeInAll_facts w.loop
      exact .inr (.of_rests h.takeInAll hzero (loopFree_takenIn hfree) hletters hq
        (halike.idleArmed.trans harmed) hheld hpop journal)
    · refine .inl (Nat.add_lt_add_right ?_ _)
      have hrested : (w.withLoop (takeInAll w.loop)).restedQueue.dueWeight w.now ≤
          (takeInAll w.loop).queue.dueWeight w.now :=
        dueWeight_restedQueue_le (w.withLoop (takeInAll w.loop)) fun harmed hheld hzero =>
          hat ⟨⟨halike.idleArmed.symm.trans harmed, hheld⟩, hzero⟩
      have hone : w.loop.dirty.toNat = 1 := congrArg Bool.toNat hd
      refine Nat.lt_of_le_of_lt (Nat.le_of_eq (load_takenIn hfree _ false false)) ?_
      rw [hbefore, hone, Bool.toNat_false]
      omega
  | blocks hq hpop hd =>
    refine .inl (Nat.add_lt_add_right ?_ _)
    have hlate := htidy.sound.lt_due_of_popDue hpop
    have hsome := letterWeight_pos hr hq hd hlate
    have hload : (takeInAll w.loop).load w.now = _ :=
      load_takenIn hfree (takeInAll w.loop).queue (takeInAll w.loop).dirty
        (takeInAll w.loop).stopArmed
    rw [TimerQueue.dueWeight_of_late hlate, halike.dirty] at hload
    change (takeInAll w.loop).load w.now < _
    omega

/-- At rest a round changes nothing. -/
theorem iterate_of_resting (h : w.Watched) (hr : w.resting = true) : w.iterate = w := by
  obtain ⟨hl, hlate⟩ := resting_facts hr
  simp only [resting, Bool.and_eq_true, Bool.not_eq_true'] at hr
  obtain ⟨⟨⟨_, hq⟩, hd⟩, _⟩ := hr
  have hsame := takeInAll_of_nil hl
  have hgoes := iterate_goes h
  generalize w.iterate = v at hgoes
  cases hgoes with
  | exits hquit =>
    rw [hsame, hq] at hquit
    cases hquit
  | handles e queue _ _ hpop =>
    rw [hsame] at hpop
    obtain ⟨hentries, _, hdue⟩ := TimerQueue.popDue_eq_some hpop
    exact absurd hdue (Nat.not_le.mpr (hlate e (hentries ▸ List.mem_cons_self)))
  | rests _ _ _ hdirty => cases hd.symm.trans hdirty
  | blocks => exact congrArg w.withLoop hsame

/-! ## Other steps -/

theorem burden_notify_le (w : Worker) (m : Message) : (w.notify m).burden ≤ w.burden + m.weight := by
  have hpost := Loop.load_post_le w.loop w.now w.now m .zero
  rw [notify_eq]
  cases hin : w.installed with
  | false => exact Nat.le_add_right _ _
  | true =>
    refine Nat.le_trans (Nat.add_le_add_right hpost (2 * w.executors)) ?_
    unfold burden
    omega

theorem burden_hold_le (w : Worker) : w.hold.burden ≤ w.burden + 2 :=
  burden_notify_le { w with keepAlive := w.keepAlive.hold } .disarmIdle

theorem burden_release_le (w : Worker) : w.release.burden ≤ w.burden + 2 := by
  have hnotify := burden_notify_le { w with keepAlive := w.keepAlive.release } .armIdle
  unfold release
  dsimp only
  split
  · exact Nat.le_add_right _ _
  · exact hnotify

theorem burden_begin (w : Worker) (job : Job) (kind : RunKind) (claim : Option MessageId)
    (custom : Option ListenerName) (phase : Phase) :
    (w.begin job kind claim custom phase).burden =
      w.burden + if kind.onLoop then 0 else 2 := by
  have hexecutors : (w.begin job kind claim custom phase).executors =
      w.executors + if kind.onLoop then 0 else 1 := by
    refine List.countP_append.trans (congrArg (w.executors + ·) ?_)
    cases hk : kind.onLoop <;> simp [hk]
  unfold burden
  rw [hexecutors]
  change w.loop.load w.now + _ = _
  cases kind.onLoop <;> simp only [Bool.false_eq_true, if_false, if_true] <;> omega

/-- A job at hand outweighs an executor and the news of its hold, and the news of a hold and of its
release. -/
theorem burden_dispatch_le {job : Job} (hp : w.loop.picked = some job) (view : View) :
    ((w.withLoop { w.loop with picked := none }).dispatch job view).burden ≤ w.burden := by
  have hat : (w.withLoop { w.loop with picked := none }).burden + 4 = w.burden := by
    have hload : w.loop.load w.now = ({ w.loop with picked := none } : Loop).load w.now + 4 := by
      unfold Loop.load
      rw [hp]
      simp only [Option.isSome_some, if_true, Option.isSome_none, Bool.false_eq_true, if_false]
      change w.loop.queue.dueWeight w.now + w.loop.letterWeight + 4 + _ + _ =
        w.loop.queue.dueWeight w.now + w.loop.letterWeight + 0 + _ + _ + 4
      omega
    unfold burden
    rw [hload]
    exact Nat.add_right_comm _ _ _
  have hd := dispatch_spec (w.withLoop { w.loop with picked := none }) job view
  generalize w.withLoop { w.loop with picked := none } = u at hat hd
  generalize u.dispatch job view = v at hd
  rw [← hat]
  cases hd with
  | closed | duplicate => exact Nat.le_add_right u.burden 4
  | refused p listeners custom =>
    rw [burden_begin]
    exact Nat.le_add_right u.burden 4
  | inline claim inFlight listeners custom =>
    rw [burden_begin]
    exact Nat.le_add_right u.burden 4
  | detached claim inFlight listeners custom =>
    obtain ⟨handles, tickets, book, ticket, handle, he⟩ :=
      launch_spec (u.admitting inFlight listeners) job claim custom
    have hhold := burden_hold_le (u.admitting inFlight listeners)
    rw [he, burden_begin]
    change (u.admitting inFlight listeners).hold.burden + 2 ≤ _
    exact Nat.add_le_add_right hhold 2
  | unstarted =>
    have hhold := burden_hold_le ((u.admitting u.inFlight u.listeners).spent job)
    have hrelease := burden_release_le ((u.admitting u.inFlight u.listeners).spent job).hold
    exact Nat.le_trans hrelease (Nat.add_le_add_right hhold 2)

theorem executors_setPhase (w : Worker) (id : Nat) (p : Phase) :
    (w.setPhase id p).executors = w.executors := by
  refine List.countP_map.trans (List.countP_congr fun r _ => ?_)
  dsimp only [Function.comp_apply]
  split <;> exact Iff.rfl

/-- An executor outweighs the news of its release. -/
theorem burden_exit_le (hr : r ∈ w.runs) : (w.exit r).burden ≤ w.burden := by
  have hrest : (w.runs.filter (·.id != r.id)).countP (fun q => !q.kind.onLoop) +
      (if r.kind.onLoop then 0 else 1) ≤ w.executors := by
    unfold executors
    rw [List.countP_eq_countP_filter_add w.runs _ (·.id != r.id)]
    refine Nat.add_le_add_left ?_ _
    cases hk : r.kind.onLoop with
    | true => exact Nat.zero_le _
    | false =>
      refine List.countP_pos_iff.mpr ⟨r, List.mem_filter.mpr ⟨hr, by simp⟩, ?_⟩
      rw [hk]
      rfl
  have hruns : (w.freed r).runs = w.runs := congrArg Ledger.runs (ledger_freed w r)
  have hfreed : (w.freed r).burden ≤ w.burden + if r.kind.onLoop then 0 else 2 := by
    unfold freed
    split
    · rename_i ticket handle hk
      rw [hk]
      exact burden_release_le
        { w with inFlight := w.givenBack r, tickets := (w.tickets.remove ticket).2 }
    · exact Nat.le_add_right w.burden _
  have hexit : (w.exit r).burden = (w.freed r).loop.load (w.freed r).now +
      2 * (w.runs.filter (·.id != r.id)).countP (fun q => !q.kind.onLoop) := by
    rw [exit_eq, ← hruns]
    rfl
  have hsame : (w.freed r).executors = w.executors := by
    unfold executors
    rw [hruns]
  rw [hexit]
  unfold burden at hfreed ⊢
  rw [hsame] at hfreed
  cases hk : r.kind.onLoop <;>
    simp only [hk, Bool.false_eq_true, if_false, if_true] at hrest hfreed <;> omega

/-- Only a run that puts its job back gives the loop more to do. -/
theorem burden_advance_le (hr : r ∈ w.runs) {reply : Reply} (hp : r.phase ≠ .requeueing)
    (h : w.advanceRun? r reply = some v) : v.burden ≤ w.burden := by
  cases advanceRun_strode h with
  | stride book hs =>
    rw [noted_eq]
    unfold burden
    rw [executors_setPhase]
    exact Nat.le_refl _
  | requeued hphase => exact absurd hphase hp
  | ended => exact burden_exit_le hr

end Worker

end Outbox
