import Outbox.Proofs.Delivery.Steps
import Outbox.Proofs.Idle.Vigil
import Outbox.Proofs.TimerQueue.Order

/-! # The inbox of a loop

What the loop is told is posted without delay, so the instructions in its queue and mailbox stand
in the order in which they were sent. A loop that takes in its letters keeps that order, and an
idle timer comes to its turn only before all that was sent after it was due. Main statements:
`Tidy.takeInAll`, `Tidy.popped` and `Tidy.told_nothing`. -/
namespace Outbox
set_option autoImplicit false

theorem Instant.after_zero {now : Instant} (h : now.HasRoom) : Instant.after now .zero = now := by
  have hlt : now + Duration.zero.nanos < Instant.limit := Nat.lt_of_le_of_lt (Nat.le_add_right _ _) h
  exact (Instant.after_eq_add hlt).trans (Nat.add_zero _)

theorem instruction?_eq_some {due : Instant} {m : Message} {k : Instruction} :
    instruction? due m = some k ↔ m.control? = some k.control ∧ k.due = due := by
  obtain ⟨d, control⟩ := k
  cases hm : m.control? <;> simp [instruction?, hm, and_comm, eq_comm]

theorem instruction?_of_none {due : Instant} {m : Message} (h : m.control? = none) :
    instruction? due m = none := by
  rw [instruction?, h]
  rfl

theorem Message.control?_of_isIdle {m : Message} (h : m.isIdle = true) : m.control? = none := by
  cases m <;> first | rfl | cases h

namespace TimerQueue
variable {q : TimerQueue Message} {due : Instant} {m : Message}

theorem instructions_insert (hq : q.Sound) (hlate : m.control?.isSome = true →
      ∀ f ∈ q.entries, f.item.control?.isSome = true → f.due ≤ due) :
    (q.insert due m).entries.filterMap (fun e => instruction? e.due e.item) =
      q.entries.filterMap (fun e => instruction? e.due e.item) ++ (instruction? due m).toList := by
  have hsome : ∀ f : Entry Message,
      (instruction? f.due f.item).isSome = true → f.item.control?.isSome = true := by
    intro f hf
    rwa [instruction?, Option.isSome_map] at hf
  cases hm : m.control? with
  | none =>
    rw [instruction?_of_none hm, Option.toList_none, List.append_nil]
    exact filterMap_place_of_none hq.fresh (instruction?_of_none hm)
  | some k =>
    rw [hm] at hlate
    exact filterMap_place hq.ordered hq.fresh fun f hf hs => hlate rfl f hf (hsome f hs)

theorem timers_insert (hq : q.Sound) (hm : m.isIdle = false) :
    (q.insert due m).entries.filter (·.item.isIdle) = q.entries.filter (·.item.isIdle) := by
  rw [← List.filterMap_eq_filter]
  refine filterMap_place_of_none hq.fresh ?_
  simp [Option.guard, hm]

end TimerQueue

namespace Loop
variable {l k : Loop} {now : Instant}

/-- The same for the vigil. -/
structure Alike (l k : Loop) : Prop where
  stage : k.stage = l.stage
  asked : k.asked = l.asked
  controls : k.controls = l.controls
  timers : k.timers = l.timers
  idleArmed : k.idleArmed = l.idleArmed
  stopArmed : k.stopArmed = l.stopArmed
  dirty : k.dirty = l.dirty
  picked : k.picked = l.picked

theorem Alike.refl (l : Loop) : l.Alike l := ⟨rfl, rfl, rfl, rfl, rfl, rfl, rfl, rfl⟩

theorem Alike.trans {j : Loop} (h : l.Alike k) (h' : k.Alike j) : l.Alike j where
  stage := h'.stage.trans h.stage
  asked := h'.asked.trans h.asked
  controls := h'.controls.trans h.controls
  timers := h'.timers.trans h.timers
  idleArmed := h'.idleArmed.trans h.idleArmed
  stopArmed := h'.stopArmed.trans h.stopArmed
  dirty := h'.dirty.trans h.dirty
  picked := h'.picked.trans h.picked

structure Tidy (l : Loop) (now : Instant) : Prop where
  sound : l.queue.Sound
  /-- Only the loop itself sets idle timers. -/
  letters : ∀ letter ∈ l.mailbox.letters, letter.message.isIdle = false
  entries : ∀ e ∈ l.queue.entries, e.item.isQuit = false
  inOrder : l.controls.Pairwise fun j k => j.due ≤ k.due
  past : ∀ k ∈ l.controls, k.due ≤ now

namespace Tidy

theorem blank (now : Instant) (hq : l.queue.entries = []) (hm : l.mailbox.letters = []) :
    l.Tidy now := by
  have hnone : l.controls = [] := by
    unfold controls
    rw [hq, hm]
    rfl
  exact ⟨⟨hq ▸ .nil, hq ▸ List.forall_mem_nil _⟩, hm ▸ List.forall_mem_nil _,
    hq ▸ List.forall_mem_nil _, hnone ▸ .nil, hnone ▸ List.forall_mem_nil _⟩

theorem wait (h : l.Tidy now) {t : Instant} (ht : now ≤ t) : l.Tidy t :=
  { h with past := fun k hk => Nat.le_trans (h.past k hk) ht }

/-! ## Posting -/

theorem controls_post (hopen : l.mailbox.closed = false) (m : Message) (d : Duration) :
    ({ l with mailbox := (l.mailbox.post now m d).2 } : Loop).controls =
      l.controls ++ (instruction? (Instant.after now d) m).toList := by
  unfold controls Mailbox.post
  rw [hopen]
  dsimp only [Bool.false_eq_true, if_false]
  rw [if_neg Bool.false_ne_true, List.filterMap_append, List.append_assoc]
  cases hm : instruction? (Instant.after now d) m <;> simp [hm]

theorem asked_post (hopen : l.mailbox.closed = false) (m : Message) (d : Duration) :
    ({ l with mailbox := (l.mailbox.post now m d).2 } : Loop).asked = (l.asked || m.isQuit) := by
  unfold asked Mailbox.post
  rw [hopen]
  simp [Bool.or_assoc]

/-- Jobs may be delayed; what the loop is told is not. -/
theorem post (h : l.Tidy now) (hroom : now.HasRoom) {m : Message} {d : Duration}
    (hm : m.isIdle = false) (hd : m.control? = none ∨ d = .zero) :
    ({ l with mailbox := (l.mailbox.post now m d).2 } : Loop).Tidy now := by
  cases hclosed : l.mailbox.closed with
  | true =>
    have hsame : (l.mailbox.post now m d).2 = l.mailbox := by rw [Mailbox.post, if_pos hclosed]
    rw [hsame]
    exact { h with }
  | false =>
    have hlast : ∀ k ∈ (instruction? (Instant.after now d) m).toList, k.due = now := by
      intro k hk
      obtain ⟨hcontrol, hdue⟩ := instruction?_eq_some.mp (Option.mem_toList.mp hk)
      rcases hd with hd | rfl
      · cases hd.symm.trans hcontrol
      · rw [hdue, Instant.after_zero hroom]
    refine { h with letters := ?_, inOrder := ?_, past := ?_ }
    · intro letter hl
      rw [Mailbox.post, hclosed] at hl
      rcases List.mem_append.mp hl with hl | hl
      · exact h.letters letter hl
      · rw [List.mem_singleton.mp hl]
        exact hm
    · rw [controls_post hclosed]
      refine List.pairwise_append.mpr ⟨h.inOrder, ?_, fun j hj k hk => ?_⟩
      · cases instruction? (Instant.after now d) m with
        | none => exact .nil
        | some k => exact List.pairwise_singleton _ k
      · rw [hlast k hk]
        exact h.past j hj
    · rw [controls_post hclosed]
      exact List.forall_mem_append.mpr ⟨h.past, fun k hk => Nat.le_of_eq (hlast k hk)⟩

/-! ## Taking in -/

theorem takeIn {letter : Letter Message} {rest : List (Letter Message)}
    (h : (Worker.boxed l (letter :: rest)).Tidy now) :
    (Worker.boxed (Worker.takeIn l letter) rest).Tidy now ∧
      (Worker.boxed l (letter :: rest)).Alike (Worker.boxed (Worker.takeIn l letter) rest) := by
  obtain ⟨hfirst, hletters⟩ := List.forall_mem_cons.mp h.letters
  obtain ⟨due, m⟩ := letter
  have hsound : l.queue.Sound := h.sound
  cases hq : m.isQuit with
  | true =>
    obtain rfl : m = .quit := by cases m <;> first | rfl | cases hq
    refine ⟨{ h with letters := hletters }, rfl, ?_, rfl, rfl, rfl, rfl, rfl, rfl⟩
    exact (Bool.or_true l.quitting).symm
  | false =>
    have hcase : Worker.takeIn l ⟨due, m⟩ = { l with queue := l.queue.insert due m } := by
      cases m <;> first | rfl | cases hq
    rw [hcase]
    have hcontrols : (Worker.boxed { l with queue := l.queue.insert due m } rest).controls =
        (Worker.boxed l (⟨due, m⟩ :: rest)).controls := by
      have hlate : m.control?.isSome = true →
          ∀ f ∈ l.queue.entries, f.item.control?.isSome = true → f.due ≤ due := by
        intro hm f hf hs
        obtain ⟨j, hj⟩ := Option.isSome_iff_exists.mp hs
        obtain ⟨k, hk⟩ := Option.isSome_iff_exists.mp hm
        refine (List.pairwise_append.mp h.inOrder).2.2 ⟨f.due, j⟩ ?_ ⟨due, k⟩ ?_
        · exact List.mem_filterMap.mpr ⟨f, hf, instruction?_eq_some.mpr ⟨hj, rfl⟩⟩
        · exact List.mem_filterMap.mpr
            ⟨_, List.mem_cons_self, instruction?_eq_some.mpr ⟨hk, rfl⟩⟩
      unfold controls Worker.boxed
      dsimp only
      rw [TimerQueue.instructions_insert hsound hlate, List.append_assoc]
      cases hm : instruction? due m <;> simp [hm]
    refine ⟨⟨h.sound.insert due m, hletters, ?_, ?_, ?_⟩, ?_⟩
    · intro e he
      rcases h.sound.mem_insert.mp he with rfl | he
      · exact hq
      · exact h.entries e he
    · rw [hcontrols]
      exact h.inOrder
    · rw [hcontrols]
      exact h.past
    · refine ⟨rfl, ?_, hcontrols, TimerQueue.timers_insert h.sound hfirst, rfl, rfl, rfl, rfl⟩
      unfold asked Worker.boxed
      rw [List.any_cons, hq]
      rfl

theorem takeInAll (h : l.Tidy now) :
    (Worker.takeInAll l).Tidy now ∧ l.Alike (Worker.takeInAll l) := by
  have hfold : ∀ (letters : List (Letter Message)) (k : Loop),
      (Worker.boxed k letters).Tidy now →
        (Worker.boxed (letters.foldl Worker.takeIn k) []).Tidy now ∧
          (Worker.boxed k letters).Alike (Worker.boxed (letters.foldl Worker.takeIn k) []) := by
    intro letters
    induction letters with
    | nil => exact fun k hk => ⟨hk, .refl _⟩
    | cons letter letters ih =>
      intro k hk
      obtain ⟨htidy, halike⟩ := hk.takeIn
      obtain ⟨htidy', halike'⟩ := ih _ htidy
      exact ⟨htidy', halike.trans halike'⟩
  exact hfold l.mailbox.letters l h

/-! ## Handling -/

theorem removeIdle (h : l.Tidy now) :
    (Worker.removeIdle l).Tidy now ∧ (Worker.removeIdle l).controls = l.controls ∧
      (Worker.removeIdle l).timers = [] := by
  have hcontrols : (Worker.removeIdle l).controls = l.controls := by
    refine congrArg (· ++ _) ?_
    change (l.queue.entries.filter _).filterMap _ = _
    rw [List.filterMap_filter]
    congr 1
    funext e
    cases hidle : e.item.isIdle with
    | true => simp [instruction?_of_none (Message.control?_of_isIdle hidle)]
    | false => simp
  have htimers : (Worker.removeIdle l).timers = [] := by
    change (l.queue.entries.filter _).filter _ = []
    simp [List.filter_filter]
  refine ⟨⟨h.sound.removeAll _, h.letters, ?_, ?_, ?_⟩, hcontrols, htimers⟩
  · exact fun e he => h.entries e (List.mem_filter.mp he).1
  · exact hcontrols ▸ h.inOrder
  · exact hcontrols ▸ h.past

/-- The entry that comes to its turn, and what is left of the queue. -/
structure Popped (l : Loop) (now : Instant) (e : TimerQueue.Entry Message)
    (queue : TimerQueue Message) : Prop where
  tidy : ({ l with queue } : Loop).Tidy now
  no_quit : e.item.isQuit = false
  controls : l.controls = (instruction? e.due e.item).toList ++ ({ l with queue } : Loop).controls
  timers : l.timers = (if e.item.isIdle then [e] else []) ++ ({ l with queue } : Loop).timers
  due : e.due ≤ now

theorem popped (h : l.Tidy now) {e : TimerQueue.Entry Message} {queue : TimerQueue Message}
    (hpop : l.queue.popDue now = (some e, queue)) : Popped l now e queue := by
  obtain ⟨hentries, _, hdue⟩ := TimerQueue.popDue_eq_some hpop
  have hcontrols : l.controls =
      (instruction? e.due e.item).toList ++ ({ l with queue } : Loop).controls := by
    unfold controls
    rw [hentries, ← List.append_assoc]
    congr 1
    cases hm : instruction? e.due e.item <;> simp [hm]
  have htimers : l.timers =
      (if e.item.isIdle then [e] else []) ++ ({ l with queue } : Loop).timers := by
    unfold timers
    rw [hentries, List.filter_cons]
    split <;> rfl
  refine ⟨⟨h.sound.popDue hpop, h.letters, ?_, ?_, ?_⟩, ?_, hcontrols, htimers, hdue⟩
  · exact fun f hf => h.entries f (hentries ▸ List.mem_cons_of_mem e hf)
  · exact (List.pairwise_append.mp (hcontrols ▸ h.inOrder)).2.1
  · exact fun k hk => h.past k (hcontrols ▸ List.mem_append_right _ hk)
  · exact h.entries e (hentries ▸ List.mem_cons_self)

/-- Whatever the loop is told later than an entry comes to its turn is due no earlier. -/
theorem due_le_of_popDue (h : l.Tidy now) (hl : l.mailbox.letters = [])
    {e : TimerQueue.Entry Message} {queue : TimerQueue Message}
    (hpop : l.queue.popDue now = (some e, queue)) :
    ∀ k ∈ l.controls, e.due ≤ k.due := by
  obtain ⟨hentries, _, _⟩ := TimerQueue.popDue_eq_some hpop
  intro k hk
  unfold controls at hk
  rw [hl, List.filterMap_nil, List.append_nil, hentries] at hk
  obtain ⟨f, hf, hcontrol⟩ := List.mem_filterMap.mp hk
  rw [(instruction?_eq_some.mp hcontrol).2]
  rcases List.mem_cons.mp hf with rfl | hf
  · exact Nat.le_refl _
  · exact h.sound.due_le_of_popDue hpop f hf

/-- A loop without letters that has nothing to handle was told nothing that it did not handle. -/
theorem told_nothing (h : l.Tidy now) (hl : l.mailbox.letters = [])
    (hpop : ∀ e ∈ l.queue.entries, now < e.due) : l.controls = [] := by
  refine List.eq_nil_iff_forall_not_mem.mpr fun k hk => ?_
  have hpast := h.past k hk
  unfold controls at hk
  rw [hl, List.filterMap_nil, List.append_nil] at hk
  obtain ⟨e, he, hcontrol⟩ := List.mem_filterMap.mp hk
  rw [(instruction?_eq_some.mp hcontrol).2] at hpast
  exact Nat.not_lt_of_le hpast (hpop e he)

/-- The timer that a loop without any sets has a number of its own. -/
theorem setIdle (h : l.Tidy now) (ht : l.timers = []) (due : Instant) :
    ({ l with queue := l.queue.insert due .idle } : Loop).Tidy now ∧
      ({ l with queue := l.queue.insert due .idle } : Loop).controls = l.controls ∧
      ({ l with queue := l.queue.insert due .idle } : Loop).timers =
        [⟨due, l.queue.last + 1, .idle⟩] := by
  have hcontrols : ({ l with queue := l.queue.insert due .idle } : Loop).controls = l.controls := by
    unfold controls
    dsimp only
    rw [TimerQueue.instructions_insert (m := .idle) h.sound fun hs => nomatch hs]
    exact congrArg (· ++ _) (List.append_nil _)
  have htimers : ({ l with queue := l.queue.insert due .idle } : Loop).timers =
      [⟨due, l.queue.last + 1, .idle⟩] := by
    have hperm := (TimerQueue.place_perm
      (e := ⟨due, l.queue.last + 1, Message.idle⟩) h.sound.fresh).filter (·.item.isIdle)
    rw [List.filter_cons_of_pos rfl, show l.queue.entries.filter (·.item.isIdle) = [] from ht]
      at hperm
    exact List.perm_singleton.mp hperm
  refine ⟨⟨h.sound.insert due _, h.letters, ?_, ?_, ?_⟩, hcontrols, htimers⟩
  · intro e he
    rcases h.sound.mem_insert.mp he with rfl | he
    · rfl
    · exact h.entries e he
  · exact hcontrols ▸ h.inOrder
  · exact hcontrols ▸ h.past

end Tidy

end Loop

end Outbox
