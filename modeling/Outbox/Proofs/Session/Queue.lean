import Outbox.Proofs.Delivery.Course
import Outbox.Proofs.Footprint
import Outbox.Proofs.TimerQueue.Order

/-! # Jobs that wait in a loop

A loop that is told nothing but jobs to do at once takes them up in the order in which they came,
whatever its idle timer does in between. `Orderly` is what such a loop is like, and `Rounded` what
it does in one round. Main statement: `rounded_iterate`. -/
namespace Outbox
set_option autoImplicit false

/-- A job with the instant from which on it may be handled. -/
def awaited? (due : Instant) (m : Message) : Option (Instant × Job) :=
  m.job?.map fun job => (due, job)

theorem Message.job?_of_isIdle {m : Message} (h : m.isIdle = true) : m.job? = none := by
  cases m <;> first | rfl | cases h

theorem awaited?_of_isIdle {due : Instant} {m : Message} (h : m.isIdle = true) :
    awaited? due m = none := by
  rw [awaited?, Message.job?_of_isIdle h]
  rfl

namespace Loop
variable {l : Loop} {now : Instant}

/-- The jobs that wait in the queue and the mailbox, in the order in which they will be taken. -/
def awaited (l : Loop) : List (Instant × Job) :=
  l.queue.entries.filterMap (fun e => awaited? e.due e.item) ++
    l.mailbox.letters.filterMap fun letter => awaited? letter.due letter.message

/-- How often the idle timer is set. -/
def idles (l : Loop) : Nat := l.queue.entries.countP (·.item.isIdle)

structure Orderly (l : Loop) (now : Instant) : Prop where
  sound : l.queue.Sound
  isOpen : l.mailbox.closed = false
  going : l.quitting = false
  letters : ∀ letter ∈ l.mailbox.letters, ∃ job, letter.message = .request job
  entries : ∀ e ∈ l.queue.entries, e.item.isIdle = true ∨ ∃ job, e.item = .request job
  idles_le : l.idles ≤ 1
  inOrder : l.awaited.Pairwise fun a b => a.1 ≤ b.1
  past : ∀ a ∈ l.awaited, a.1 ≤ now

namespace Orderly

theorem blank (now : Instant) (ho : l.mailbox.closed = false) (hg : l.quitting = false)
    (hq : l.queue.entries = []) (hm : l.mailbox.letters = []) : l.Orderly now := by
  have hnone : l.awaited = [] := by
    unfold awaited
    rw [hq, hm]
    rfl
  have hidles : l.idles = 0 := by
    unfold idles
    rw [hq]
    rfl
  exact ⟨⟨hq ▸ .nil, hq ▸ List.forall_mem_nil _⟩, ho, hg, hm ▸ List.forall_mem_nil _,
    hq ▸ List.forall_mem_nil _, by omega, hnone ▸ .nil, hnone ▸ List.forall_mem_nil _⟩

theorem wait (h : l.Orderly now) {t : Instant} (ht : now ≤ t) : l.Orderly t :=
  { h with past := fun a ha => Nat.le_trans (h.past a ha) ht }

/-! ## Posting -/

theorem post (h : l.Orderly now) (hroom : Instant.after now .zero = now) (job : Job) :
    ({ l with mailbox := (l.mailbox.post now (.request job) .zero).2 } : Loop).Orderly now ∧
      ({ l with mailbox := (l.mailbox.post now (.request job) .zero).2 } : Loop).awaited =
        l.awaited ++ [(now, job)] := by
  have hbox : (l.mailbox.post now (.request job) .zero).2 =
      { l.mailbox with letters := l.mailbox.letters ++ [⟨now, .request job⟩] } := by
    rw [Mailbox.post, if_neg (by rw [h.isOpen]; exact Bool.false_ne_true), hroom]
  rw [hbox]
  have hawaited : ({ l with mailbox := { l.mailbox with
      letters := l.mailbox.letters ++ [⟨now, .request job⟩] } } : Loop).awaited =
      l.awaited ++ [(now, job)] := by
    unfold awaited
    rw [List.filterMap_append, List.append_assoc]
    rfl
  refine ⟨{ h with letters := ?_, inOrder := ?_, past := ?_ }, hawaited⟩
  · exact List.forall_mem_append.mpr ⟨h.letters, List.forall_mem_singleton.mpr ⟨job, rfl⟩⟩
  · rw [hawaited]
    refine List.pairwise_append.mpr ⟨h.inOrder, List.pairwise_singleton _ _, fun a ha b hb => ?_⟩
    rw [List.mem_singleton.mp hb]
    exact h.past a ha
  · rw [hawaited]
    exact List.forall_mem_append.mpr ⟨h.past, List.forall_mem_singleton.mpr (Nat.le_refl now)⟩

/-! ## Taking in -/

/-- What taking in letters leaves alone. -/
structure Same (l k : Loop) : Prop where
  awaited : k.awaited = l.awaited
  idles : k.idles = l.idles
  stage : k.stage = l.stage
  picked : k.picked = l.picked
  dirty : k.dirty = l.dirty

def withLetters (l : Loop) (letters : List (Letter Message)) : Loop :=
  { l with mailbox := { l.mailbox with letters } }

theorem takeIn {letter : Letter Message} {rest : List (Letter Message)}
    (h : (withLetters l (letter :: rest)).Orderly now) :
    (withLetters (Worker.takeIn l letter) rest).Orderly now ∧
      Same (withLetters l (letter :: rest)) (withLetters (Worker.takeIn l letter) rest) := by
  obtain ⟨⟨job, hjob⟩, hletters⟩ := List.forall_mem_cons.mp h.letters
  obtain ⟨due, m⟩ := letter
  dsimp only at hjob
  subst hjob
  have hsound : l.queue.Sound := h.sound
  have hlate : ∀ f ∈ l.queue.entries, (awaited? f.due f.item).isSome = true → f.due ≤ due := by
    intro f hf hs
    obtain ⟨a, ha⟩ := Option.isSome_iff_exists.mp hs
    have hfirst := (List.pairwise_append.mp h.inOrder).2.2 a (List.mem_filterMap.mpr ⟨f, hf, ha⟩)
      (due, job) (List.mem_filterMap.mpr ⟨_, List.mem_cons_self, rfl⟩)
    obtain ⟨job', _, rfl⟩ := Option.map_eq_some_iff.mp ha
    exact hfirst
  have hawaited : (withLetters (Worker.takeIn l ⟨due, .request job⟩) rest).awaited =
      (withLetters l (⟨due, .request job⟩ :: rest)).awaited := by
    change (TimerQueue.place _ _).filterMap _ ++ _ = _
    rw [TimerQueue.filterMap_place hsound.ordered hsound.fresh hlate, List.append_assoc]
    rfl
  have hidles : (withLetters (Worker.takeIn l ⟨due, .request job⟩) rest).idles =
      (withLetters l (⟨due, .request job⟩ :: rest)).idles :=
    (TimerQueue.place_perm hsound.fresh).countP_eq _
  refine ⟨⟨hsound.insert due _, h.isOpen, h.going, hletters, ?_, ?_, ?_, ?_⟩,
    hawaited, hidles, rfl, rfl, rfl⟩
  · intro e he
    rcases hsound.mem_insert.mp he with rfl | he
    · exact .inr ⟨job, rfl⟩
    · exact h.entries e he
  · exact hidles ▸ h.idles_le
  · exact hawaited ▸ h.inOrder
  · exact hawaited ▸ h.past

theorem takeInAll (h : l.Orderly now) :
    (Worker.takeInAll l).Orderly now ∧ Same l (Worker.takeInAll l) := by
  have hfold : ∀ (letters : List (Letter Message)) (k : Loop),
      (withLetters k letters).Orderly now →
        (withLetters (letters.foldl Worker.takeIn k) []).Orderly now ∧
          Same (withLetters k letters) (withLetters (letters.foldl Worker.takeIn k) []) := by
    intro letters
    induction letters with
    | nil => exact fun k hk => ⟨hk, rfl, rfl, rfl, rfl, rfl⟩
    | cons letter letters ih =>
      intro k hk
      obtain ⟨horderly, hsame⟩ := hk.takeIn
      obtain ⟨horderly', hsame'⟩ := ih _ horderly
      exact ⟨horderly', hsame'.awaited.trans hsame.awaited, hsame'.idles.trans hsame.idles,
        hsame'.stage.trans hsame.stage, hsame'.picked.trans hsame.picked,
        hsame'.dirty.trans hsame.dirty⟩
  exact hfold l.mailbox.letters l h

/-! ## Handling -/

/-- An entry for the idle timer is not in the way of any job. -/
theorem insertIdle (h : l.Orderly now) (hi : l.idles = 0) (due : Instant) :
    ({ l with queue := l.queue.insert due .idle } : Loop).Orderly now ∧
      ({ l with queue := l.queue.insert due .idle } : Loop).awaited = l.awaited := by
  have hawaited : ({ l with queue := l.queue.insert due .idle } : Loop).awaited = l.awaited :=
    congrArg (· ++ _) (TimerQueue.filterMap_place_of_none h.sound.fresh rfl)
  have hidles : ({ l with queue := l.queue.insert due .idle } : Loop).idles = l.idles + 1 := by
    refine ((TimerQueue.place_perm h.sound.fresh).countP_eq _).trans ?_
    exact List.countP_cons_of_pos rfl
  refine ⟨⟨h.sound.insert due _, h.isOpen, h.going, h.letters, ?_, by omega, ?_, ?_⟩, hawaited⟩
  · intro e he
    rcases h.sound.mem_insert.mp he with rfl | he
    · exact .inl rfl
    · exact h.entries e he
  · exact hawaited ▸ h.inOrder
  · exact hawaited ▸ h.past

theorem removeIdle (h : l.Orderly now) :
    (Worker.removeIdle l).Orderly now ∧ (Worker.removeIdle l).awaited = l.awaited ∧
      (Worker.removeIdle l).idles = 0 := by
  have hawaited : (Worker.removeIdle l).awaited = l.awaited := by
    refine congrArg (· ++ _) ?_
    change (l.queue.entries.filter _).filterMap _ = _
    rw [List.filterMap_filter]
    congr 1
    funext e
    cases hidle : e.item.isIdle with
    | true => simp [awaited?_of_isIdle hidle]
    | false => simp
  have hidles : (Worker.removeIdle l).idles = 0 := by
    change (l.queue.entries.filter _).countP _ = 0
    refine List.countP_eq_zero.mpr fun e he => ?_
    simpa using (List.mem_filter.mp he).2
  refine ⟨⟨h.sound.removeAll _, h.isOpen, h.going, h.letters, ?_, by omega, ?_, ?_⟩,
    hawaited, hidles⟩
  · exact fun e he => h.entries e (List.mem_filter.mp he).1
  · exact hawaited ▸ h.inOrder
  · exact hawaited ▸ h.past

/-- The entry that comes to its turn is the idle timer's or the first job's. -/
theorem popped (h : l.Orderly now) {e : TimerQueue.Entry Message} {queue : TimerQueue Message}
    (hpop : l.queue.popDue now = (some e, queue)) :
    ({ l with queue } : Loop).Orderly now ∧
      ((e.item = .idle ∧ ({ l with queue } : Loop).awaited = l.awaited ∧
          ({ l with queue } : Loop).idles < l.idles) ∨
        ∃ job, e.item = .request job ∧
          l.awaited = (e.due, job) :: ({ l with queue } : Loop).awaited) := by
  obtain ⟨hentries, _, _⟩ := TimerQueue.popDue_eq_some hpop
  have hawaited : l.awaited =
      (awaited? e.due e.item).toList ++ ({ l with queue } : Loop).awaited := by
    unfold awaited
    rw [hentries, List.filterMap_cons]
    cases awaited? e.due e.item <;> rfl
  have hidles : l.idles = ({ l with queue } : Loop).idles + if e.item.isIdle then 1 else 0 := by
    unfold idles
    rw [hentries, List.countP_cons]
  have horder := h.inOrder
  have hpast := h.past
  rw [hawaited] at horder hpast
  refine ⟨⟨h.sound.popDue hpop, h.isOpen, h.going, h.letters, ?_, ?_, ?_, ?_⟩, ?_⟩
  · exact fun f hf => h.entries f (hentries ▸ List.mem_cons_of_mem e hf)
  · exact Nat.le_trans (hidles ▸ Nat.le_add_right _ _) h.idles_le
  · exact (List.pairwise_append.mp horder).2.1
  · exact (List.forall_mem_append.mp hpast).2
  · rcases h.entries e (hentries ▸ List.mem_cons_self) with hidle | ⟨job, hjob⟩
    · obtain hi : e.item = .idle := by
        cases hitem : e.item <;> rw [hitem] at hidle <;> first | rfl | cases hidle
      rw [hi] at hawaited hidles
      refine .inl ⟨hi, hawaited.symm, ?_⟩
      have hone : l.idles = ({ l with queue } : Loop).idles + 1 := hidles
      omega
    · rw [hjob] at hawaited
      exact .inr ⟨job, hjob, hawaited⟩

/-- A job that waits in the queue is due. -/
theorem awaited_eq_nil (h : l.Orderly now) (hl : l.mailbox.letters = [])
    (hpop : (l.queue.popDue now).1 = none) : l.awaited = [] := by
  refine List.eq_nil_iff_forall_not_mem.mpr fun a ha => ?_
  have hle := h.past a ha
  unfold awaited at ha
  rw [hl, List.filterMap_nil, List.append_nil] at ha
  obtain ⟨e, he, hs⟩ := List.mem_filterMap.mp ha
  obtain ⟨job, _, rfl⟩ := Option.map_eq_some_iff.mp hs
  exact Nat.lt_irrefl _ (Nat.lt_of_lt_of_le (h.sound.lt_due_of_popDue hpop e he) hle)

theorem awaited_of_resting {w : Worker} (h : w.loop.Orderly w.now) (hr : w.resting = true) :
    w.loop.awaited = [] := by
  simp only [Worker.resting, Bool.and_eq_true, List.isEmpty_iff, Bool.not_eq_true',
    List.any_eq_false, decide_eq_true_eq] at hr
  refine h.awaited_eq_nil hr.1.1.1 ?_
  unfold TimerQueue.popDue
  split
  · rfl
  · rename_i e r he
    rw [if_neg (hr.2 e (he ▸ List.mem_cons_self))]

end Orderly

end Loop

/-! ## One round -/

/-- The answer of the connection that the event notes. -/
def Event.answer? : Event → Option Outcome
  | .returned _ outcome => some outcome
  | _ => none

theorem Event.answer?_of_isQuiet {e : Event} (h : e.isQuiet = true) : e.answer? = none := by
  cases e <;> first | rfl | cases h

namespace Worker
variable {w : Worker}

/-- The loop has taken up the first job that waits, or none; then, if some wait, the idle timer is
set less often. -/
inductive Rounded (w : Worker) : Worker → Prop
  | mk (l : Loop) (news : List JournalEntry) (ho : l.Orderly w.now) (hs : l.stage = w.loop.stage)
      (hn : ∀ e ∈ news, e.event.answer? = none)
      (hjobs : (l.picked = none ∧ l.awaited = w.loop.awaited ∧
          (l.awaited ≠ [] → l.idles < w.loop.idles)) ∨
        ∃ due job, l.picked = some job ∧ w.loop.awaited = (due, job) :: l.awaited ∧ l.idles = 0) :
      Rounded w { w with loop := l, journal := news ++ w.journal }

theorem rounded_rest {l : Loop} (ho : l.Orderly w.now) (hs : l.stage = w.loop.stage)
    (hp : l.picked = none) (ha : l.awaited = w.loop.awaited) (hnil : l.awaited = []) :
    Rounded w ((w.withLoop l).setIdleTimer.askForStop) := by
  have hrest : ∀ k : Loop, k.Orderly w.now → k.stage = w.loop.stage → k.picked = none →
      k.awaited = l.awaited → ∀ news : List JournalEntry, (∀ e ∈ news, e.event.answer? = none) →
        Rounded w (({ w with loop := k, journal := news ++ w.journal } : Worker).askForStop) := by
    intro k hk hks hkp hka news hn
    have hnone : k.awaited = [] := hka.trans hnil
    have hjobs : k.picked = none ∧ k.awaited = w.loop.awaited ∧
        (k.awaited ≠ [] → k.idles < w.loop.idles) :=
      ⟨hkp, hka.trans ha, fun hne => absurd hnone hne⟩
    unfold askForStop
    split
    · dsimp only
      split
      · exact .mk { k with stopArmed := false } (⟨w.now, .signal .stopIfIdle⟩ :: news) { hk with }
          hks (List.forall_mem_cons.mpr ⟨rfl, hn⟩) (.inl hjobs)
      · exact .mk { k with stopArmed := false } news { hk with } hks hn (.inl hjobs)
    · exact .mk k news hk hks hn (.inl hjobs)
  obtain ⟨hcleared, hawaited, hidles⟩ := ho.removeIdle
  unfold setIdleTimer
  split
  · dsimp only
    split
    · exact hrest (removeIdle l) hcleared hs hp hawaited [] (List.forall_mem_nil _)
    · obtain ⟨hset, hsame⟩ :=
        hcleared.insertIdle hidles (Instant.after w.now w.config.idleTimeout)
      exact hrest _ hset hs hp (hsame.trans hawaited) [⟨w.now, .idleSet _⟩]
        (List.forall_mem_singleton.mpr rfl)
  · exact hrest l ho hs hp rfl [] (List.forall_mem_nil _)

theorem rounded_handle {l : Loop} (ho : l.Orderly w.now) (hs : l.stage = w.loop.stage)
    (hp : l.picked = none) {e : TimerQueue.Entry Message}
    (hturn : (e.item = .idle ∧ l.awaited = w.loop.awaited ∧ l.idles < w.loop.idles) ∨
      ∃ job, e.item = .request job ∧ w.loop.awaited = (e.due, job) :: l.awaited) :
    Rounded w ((w.withLoop l).handle e) := by
  have hdirty : ({ l with dirty := true } : Loop).Orderly w.now := { ho with }
  unfold handle
  dsimp only
  rcases hturn with ⟨hidle, hawaited, hidles⟩ | ⟨job, hjob, hawaited⟩
  · rw [hidle]
    dsimp only
    split
    · exact .mk { l with dirty := true } [⟨w.now, .signal .fullyIdle⟩, ⟨w.now, .handled e⟩] hdirty
        hs (List.forall_mem_cons.mpr ⟨rfl, List.forall_mem_singleton.mpr rfl⟩)
        (.inl ⟨hp, hawaited, fun _ => hidles⟩)
    · exact .mk { l with dirty := true } [⟨w.now, .handled e⟩] hdirty hs
        (List.forall_mem_singleton.mpr rfl) (.inl ⟨hp, hawaited, fun _ => hidles⟩)
  · obtain ⟨hcleared, hrest, hnone⟩ := hdirty.removeIdle
    have hfirst : w.loop.awaited =
        (e.due, job) :: (removeIdle { l with dirty := true }).awaited := by
      rw [hrest]
      exact hawaited
    rw [hjob]
    exact .mk { removeIdle { l with dirty := true } with picked := some job }
      [⟨w.now, .handled e⟩] { hcleared with } hs (List.forall_mem_singleton.mpr rfl)
      (.inr ⟨e.due, job, rfl, hfirst, hnone⟩)

theorem rounded_iterate (h : w.loop.Orderly w.now) (hp : w.loop.picked = none) :
    Rounded w w.iterate := by
  obtain ⟨ho, hsame⟩ := h.takeInAll
  have hpicked : (takeInAll w.loop).picked = none := hsame.picked.trans hp
  have hletters := (takeInAll_facts w.loop).2.2
  unfold iterate
  dsimp only [withLoop]
  rw [if_neg (by rw [ho.going]; exact Bool.false_ne_true)]
  rcases hpop : (takeInAll w.loop).queue.popDue w.now with ⟨first, queue⟩
  cases first with
  | some e =>
    obtain ⟨hrest, hturn⟩ := ho.popped hpop
    rw [hsame.awaited, hsame.idles] at hturn
    exact rounded_handle (l := { takeInAll w.loop with queue }) hrest hsame.stage hpicked hturn
  | none =>
    have hnil := ho.awaited_eq_nil hletters (congrArg Prod.fst hpop)
    dsimp only
    split
    · exact rounded_rest (l := { takeInAll w.loop with dirty := false }) { ho with } hsame.stage
        hpicked hsame.awaited hnil
    · exact .mk (takeInAll w.loop) [] ho hsame.stage (List.forall_mem_nil _)
        (.inl ⟨hpicked, hsame.awaited, fun hne => absurd hnil hne⟩)

end Worker

end Outbox
