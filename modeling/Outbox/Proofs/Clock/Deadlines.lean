import Outbox.Proofs.Idle.Window

/-! # Deadlines

Letters and idle timers are due when a delay is over that somebody chose, and it may be longer than
the clock can count. Their due times stay on the clock all the same, and none comes early but for
the delays that nobody lives to see the end of. A wait for the loop's end takes no such care: it
fails if the clock cannot count its deadline. Main statements: `due_times_on_clock`, over whole
runs, and `wait_overflows_iff`, which sets the three ways to a due time side by side. -/
namespace Outbox
set_option autoImplicit false

namespace Instant
variable {now t due : Instant} {d : Duration}

/-- The delay is over at `due`, or ten years of it are, and the clock can count it. -/
structure Reaches (now : Instant) (d : Duration) (due : Instant) : Prop where
  on_clock : due < limit
  not_early : now + min d.nanos Duration.farFuture.nanos ≤ due

theorem HasRoom.mono (h : now.HasRoom) (ht : t ≤ now) : t.HasRoom :=
  Nat.lt_of_le_of_lt (Nat.add_le_add_right ht _) h

theorem reaches_after (h : now.HasRoom) (d : Duration) : now.Reaches d (after now d) :=
  ⟨after_lt_limit h d, le_after now d⟩

theorem plus?_eq_some_iff : plus? now d = some due ↔ due < limit ∧ now + d.nanos = due := by
  unfold plus?
  split
  · rename_i hlt
    rw [Option.some.injEq]
    exact ⟨fun he => ⟨he ▸ hlt, he⟩, And.right⟩
  · rename_i hge
    exact ⟨nofun, fun ⟨hlt, he⟩ => absurd (he ▸ hlt) hge⟩

theorem plus?_eq_none_iff : plus? now d = none ↔ limit ≤ now + d.nanos := by
  unfold plus?
  split
  · rename_i hlt
    exact ⟨nofun, fun hge => absurd hlt (Nat.not_lt.mpr hge)⟩
  · rename_i hge
    exact ⟨fun _ => Nat.not_lt.mp hge, fun _ => rfl⟩

theorem reaches_plus (h : plus? now d = some due) : now.Reaches d due := by
  obtain ⟨hlt, rfl⟩ := plus?_eq_some_iff.mp h
  exact ⟨hlt, Nat.add_le_add_left (Nat.min_le_left _ _) _⟩

/-- No instant is so early that the clock can count the longest delay from there on. -/
theorem plus?_longest (now : Instant) : plus? now .longest = none :=
  have hlong : limit ≤ Duration.longest.nanos := by decide
  plus?_eq_none_iff.mpr (Nat.le_trans hlong (Nat.le_add_left _ _))

end Instant

/-! ## Whole runs -/

namespace TimerQueue
variable {α : Type} {q : TimerQueue α} {due : Instant} {item : α} {e : Entry α}

theorem mem_of_mem_place {f : Entry α} {l : List (Entry α)} (h : f ∈ place e l) :
    f = e ∨ f ∈ l := by
  induction l with
  | nil => exact .inl (List.mem_singleton.mp h)
  | cons g l ih =>
    unfold place at h
    split at h
    · exact List.mem_cons.mp h
    · split at h
      · exact (List.mem_cons.mp h).imp_right (List.mem_cons_of_mem g)
      · rcases List.mem_cons.mp h with rfl | h
        · exact .inr List.mem_cons_self
        · exact (ih h).imp_right (List.mem_cons_of_mem g)

theorem forall_mem_insert {P : Entry α → Prop} (hnew : P ⟨due, q.last + 1, item⟩)
    (h : ∀ f ∈ q.entries, P f) : ∀ f ∈ (q.insert due item).entries, P f := by
  intro f hf
  rcases mem_of_mem_place hf with rfl | hf
  · exact hnew
  · exact h f hf

end TimerQueue

namespace Course
variable {c d : Course}

/-- Whatever waits was posted, and posted while there was room on the clock. -/
structure Timely (c : Course) : Prop where
  room : c.now.HasRoom
  posted : ∀ p ∈ c.postings, p.time.HasRoom
  letters : ∀ l ∈ c.mailbox.letters, ∃ p ∈ c.postings, p.letter = l
  queued : ∀ e ∈ c.queue.entries, e.item.isIdle = false →
    ∃ p ∈ c.postings, p.message = e.item ∧ p.due = e.due

theorem Timely.post (h : c.Timely) (m : Message) (delay : Duration) : (c.post m delay).Timely := by
  unfold Course.post
  split
  · exact h
  · rename_i hopen
    have hgrow : ∀ {P : Posting → Prop}, (∃ p ∈ c.postings, P p) →
        ∃ p ∈ c.postings ++ [⟨c.now, delay, m⟩], P p :=
      fun ⟨p, hp, hP⟩ => ⟨p, List.mem_append_left _ hp, hP⟩
    refine ⟨h.room, ?_, ?_, fun e he hidle => hgrow (h.queued e he hidle)⟩
    · exact List.forall_mem_append.mpr ⟨h.posted, List.forall_mem_singleton.mpr h.room⟩
    · rw [Mailbox.post, if_neg hopen]
      refine List.forall_mem_append.mpr ⟨fun l hl => hgrow (h.letters l hl), ?_⟩
      exact List.forall_mem_singleton.mpr ⟨_, List.mem_append_right _ List.mem_cons_self, rfl⟩

theorem Timely.take (h : c.Timely) {letter : Letter Message} {rest : List (Letter Message)}
    (hl : c.mailbox.letters = letter :: rest) : (c.takeIn letter rest).Timely := by
  have hletters := h.letters
  rw [hl] at hletters
  obtain ⟨⟨p, hp, rfl⟩, hrest⟩ := List.forall_mem_cons.mp hletters
  unfold takeIn
  dsimp only
  split
  · exact { h with letters := hrest }
  · exact { h with
      letters := hrest
      queued := TimerQueue.forall_mem_insert (fun _ => ⟨p, hp, rfl, rfl⟩) h.queued }

theorem Timely.purge (h : c.Timely) : c.purge.Timely :=
  { h with queued := fun e he => h.queued e (List.mem_of_mem_filter he) }

theorem Timely.move (h : c.Timely) (hm : c.Move d) : d.Timely := by
  cases hm with
  | wait t _ hroom => exact { h with room := hroom }
  | post m delay => exact h.post m delay
  | interrupt | retire | climb | giveUp | install | hand => exact { h with }
  | renew | close =>
    exact { h with letters := List.forall_mem_nil _, queued := List.forall_mem_nil _ }
  | take letter rest _ hl => exact h.take hl
  | purge => exact h.purge
  | setIdle due =>
    exact { h.purge with queued := TimerQueue.forall_mem_insert nofun h.purge.queued }
  | handle e rest _ _ _ he =>
    obtain ⟨hqueue, _, _⟩ := TimerQueue.popDue_eq_some he
    exact { h with queued := fun f hf => h.queued f (hqueue ▸ List.mem_cons_of_mem e hf) }

theorem Timely.moves (h : c.Timely) (hm : c.Moves d) : d.Timely := by
  induction hm with
  | refl => exact h
  | tail _ hm ih => exact ih.move hm

end Course

namespace Worker
variable {config : Config} {w : Worker}

theorem timely (h : Reachable config w) : w.course.Timely :=
  h.induction (P := fun w => w.course.Timely)
    ⟨hasRoom (.create config), List.forall_mem_nil _, List.forall_mem_nil _, List.forall_mem_nil _⟩
    fun _ _ _ _ hw hs => hw.moves (step_moves hs)

/-- Every idle timer was set at some time of the run. -/
theorem timer_due (h : Reachable config w) :
    ∀ e ∈ w.loop.timers, ∃ t ≤ w.now, e.due = Instant.after t config.idleTimeout := by
  refine h.induction (P := fun w => ∀ e ∈ w.loop.timers, ∃ t ≤ w.now,
    e.due = Instant.after t config.idleTimeout) (List.forall_mem_nil _) ?_
  intro u l v hr hu hs e he
  have hm := vigil_move hr hs
  rcases hm.timer he with hold | ⟨_, _, hdue⟩
  · obtain ⟨t, ht, hdue⟩ := hu e hold
    exact ⟨t, Nat.le_trans ht hm.now_le, hdue⟩
  · rw [vigil_timeout hr] at hdue
    exact ⟨u.now, hm.now_le, hdue⟩

/-- However long the delays are that a run is given, no due time is off the clock or early: not
those of the postings, and nothing else waits but the idle timers. -/
theorem due_times_on_clock (h : Reachable config w) :
    (∀ p ∈ w.postings, p.time.Reaches p.delay p.due) ∧
    (∀ l ∈ w.loop.mailbox.letters, ∃ p ∈ w.postings, p.letter = l) ∧
    ∀ e ∈ w.loop.queue.entries,
      (∃ p ∈ w.postings, p.message = e.item ∧ p.due = e.due) ∨
      (e.item.isIdle = true ∧ ∃ t ≤ w.now, t.Reaches config.idleTimeout e.due) := by
  have ht := timely h
  refine ⟨fun p hp => Instant.reaches_after (ht.posted p hp) p.delay, ht.letters, ?_⟩
  intro e he
  cases hidle : e.item.isIdle with
  | false => exact .inl (ht.queued e he hidle)
  | true =>
    obtain ⟨t, hle, hdue⟩ := timer_due h e (List.mem_filter.mpr ⟨he, hidle⟩)
    refine .inr ⟨rfl, t, hle, ?_⟩
    rw [hdue]
    exact Instant.reaches_after (ht.room.mono hle) config.idleTimeout

/-! ## Posting, resting and waiting -/

theorem letters_post (w : Worker) (m : Message) (d : Duration) :
    (w.post m d).2.loop.mailbox.letters = w.loop.mailbox.letters ++
      if w.loop.mailbox.closed then [] else [⟨Instant.after w.now d, m⟩] := by
  rw [post_eq]
  unfold Mailbox.post
  cases w.loop.mailbox.closed with
  | true => exact (List.append_nil _).symm
  | false => rfl

/-- With ten years left on the clock, a letter is due at an instant on it whatever its delay, and so
is the idle timer whatever the timeout. Only a wait for the loop's end overflows, exactly for the
timeouts that the clock cannot count; so it does for the longest. -/
theorem wait_overflows_iff (w : Worker) (hroom : w.now.HasRoom) :
    (∀ m d, ∃ due, w.now.Reaches d due ∧
      (w.post m d).2.loop.mailbox.letters = w.loop.mailbox.letters ++
        if w.loop.mailbox.closed then [] else [⟨due, m⟩]) ∧
    (w.loop.idleArmed = true → w.keepAlive.isHeld = false →
      ∃ due, w.now.Reaches w.config.idleTimeout due ∧
        w.setIdleTimer.loop.queue = (removeIdle w.loop).queue.insert due .idle) ∧
    (∀ timeout, w.deadline? timeout = none ↔ Instant.limit ≤ w.now + timeout.nanos) ∧
    (∀ timeout, ∀ due ∈ w.deadline? timeout, w.now.Reaches timeout due) ∧
    w.deadline? .longest = none := by
  refine ⟨fun m d => ?_, fun harmed hfree => ?_, fun timeout => ?_, fun timeout due hdue => ?_, ?_⟩
  · exact ⟨_, Instant.reaches_after hroom d, letters_post w m d⟩
  · refine ⟨_, Instant.reaches_after hroom w.config.idleTimeout, ?_⟩
    rw [setIdleTimer, if_pos harmed, if_neg (Bool.eq_false_iff.mp hfree)]
    rfl
  · exact Instant.plus?_eq_none_iff
  · exact Instant.reaches_plus hdue
  · exact Instant.plus?_longest w.now

/-- While the loop runs, a job can be put off for the longest time; but nobody can wait that long
for the loop's end. -/
theorem longest_wait_overflows :
    ∃ w, (create {} 0).steps opening = some w ∧ w.now.HasRoom ∧ w.deadline? .longest = none ∧
      ∃ due, w.now.Reaches .longest due ∧
        (w.post (.request (blankJob 1)) .longest).2.loop.mailbox.letters =
          [⟨due, .request (blankJob 1)⟩] := by
  have h : ∃ w, (create {} 0).steps opening = some w ∧ w.loop.mailbox = {} := ⟨_, rfl, rfl⟩
  obtain ⟨w, hs, hmailbox⟩ := h
  have hroom : w.now.HasRoom := hasRoom ⟨opening, hs⟩
  obtain ⟨hposts, _, _, _, hlongest⟩ := wait_overflows_iff w hroom
  obtain ⟨due, hdue, hletters⟩ := hposts (.request (blankJob 1)) .longest
  rw [hmailbox] at hletters
  exact ⟨w, hs, hroom, hlongest, due, hdue, hletters⟩

end Worker

end Outbox
