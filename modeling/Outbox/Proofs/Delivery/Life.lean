import Outbox.Proofs.Delivery.Once
import Outbox.Proofs.Reach

/-! # The one loop of a worker

Before its loop prepares nothing has passed through a worker, and a worker that was asked to quit
lets nothing pass any more, whatever loops are started for it: in between the invariant of the
order of messages holds. Main statement: `delivered_once_in_order`. -/
namespace Outbox
set_option autoImplicit false

/-- Nobody knows the loop's mailbox yet. -/
def Stage.isEarly : Stage → Bool
  | .absent | .entering | .pointing | .opening | .awaitingOpen => true
  | .preparing | .running | .exited => false

/-- All that a loop that finds its worker interrupted goes through. -/
def Stage.isIdle : Stage → Bool
  | .absent | .entering | .exited => true
  | .pointing | .opening | .awaitingOpen | .preparing | .running => false

namespace Course
variable {c d : Course}

structure Blank (c : Course) : Prop where
  mailbox : c.mailbox = {}
  queue : c.queue = {}
  picked : c.picked = none
  quitting : c.quitting = false
  postings : c.postings = []
  handlings : c.handlings = []
  handovers : c.handovers = []

theorem Blank.kept (h : c.Blank) : c.Kept 0 id := by
  obtain ⟨now, _, _, _, _, mailbox, queue, picked, postings, handlings, handovers⟩ := c
  obtain ⟨rfl, rfl, rfl, _, rfl, rfl, rfl⟩ := h
  have hnone : ∀ {α : Type} {P : α → Prop}, ∀ a ∈ ([] : List α), P a := fun a ha =>
    absurd ha List.not_mem_nil
  exact
    { ordered := .nil
      number_le := hnone
      source := hnone
      origin_lt := hnone
      complete := fun i hi => absurd hi (Nat.not_lt_zero i)
      letters := rfl
      taken_le := Nat.le_refl 0
      no_idle := hnone
      no_quit := hnone
      past := hnone
      posted := hnone
      times := .nil
      ahead := hnone
      handed := ⟨[], [], rfl, rfl, .nil⟩ }

structure Over (c : Course) : Prop where
  stage : c.stage.isIdle = true
  interrupted : c.interrupted = true
  installed : c.installed = false
  picked : c.picked = none

theorem Over.stage_ne (h : c.Over) {s : Stage} (hs : s.isIdle = false) : c.stage ≠ s := by
  rintro rfl
  exact Bool.noConfusion (hs.symm.trans h.stage)

def SameHistory (c d : Course) : Prop :=
  d.postings = c.postings ∧ d.handlings = c.handlings ∧ d.handovers = c.handovers

theorem Over.move (h : c.Over) (hm : c.Move d) : d.Over ∧ c.SameHistory d := by
  have hstage := h.stage
  cases hm with
  | wait | purge => exact ⟨{ h with }, rfl, rfl, rfl⟩
  | interrupt => exact ⟨{ h with interrupted := rfl }, rfl, rfl, rfl⟩
  | retire => exact ⟨{ h with installed := rfl }, rfl, rfl, rfl⟩
  | post m d hm hq ho =>
    rcases ho with hi | hs
    · cases h.installed.symm.trans hi
    · rw [hs] at hstage
      cases hstage
  | renew s hs =>
    refine ⟨{ h with stage := ?_, picked := rfl }, rfl, rfl, rfl⟩
    rcases hs with ⟨_, rfl⟩ | ⟨_, rfl⟩ <;> rfl
  | climb s hfrom hto hi =>
    cases hc : c.stage with
    | entering => cases h.interrupted.symm.trans (hi hc)
    | absent | exited =>
      rw [hc] at hfrom
      exact absurd hfrom (by decide)
    | pointing | opening | awaitingOpen | preparing | running =>
      rw [hc] at hstage
      cases hstage
  | giveUp => exact ⟨{ h with stage := rfl }, rfl, rfl, rfl⟩
  | install hs | take _ _ hs | setIdle _ hs | handle _ _ hs | close hs =>
    rw [hs] at hstage
    cases hstage
  | hand job hp => cases h.picked.symm.trans hp

theorem Over.moves (h : c.Over) (hm : c.Moves d) : d.Over ∧ c.SameHistory d := by
  induction hm with
  | refl => exact ⟨h, rfl, rfl, rfl⟩
  | tail _ hm ih =>
    obtain ⟨ho, hp, hg, hd⟩ := ih
    obtain ⟨ho', hp', hg', hd'⟩ := ho.move hm
    exact ⟨ho', hp'.trans hp, hg'.trans hg, hd'.trans hd⟩

/-! ## While the loop is there -/

/-- Who knows of a request to quit is interrupted. -/
def Alert (c : Course) : Prop :=
  c.quitting = true ∨ (∃ letter ∈ c.mailbox.letters, letter.message.isQuit = true) →
    c.interrupted = true

theorem Alert.post (h : c.Alert) {m : Message} (d : Duration)
    (hq : m.isQuit = true → c.interrupted = true) : (c.post m d).Alert := by
  unfold Course.post
  split
  · exact h
  · rename_i hopen
    rintro (hquit | ⟨letter, hl, hquit⟩)
    · exact h (.inl hquit)
    · rw [Mailbox.post, if_neg hopen] at hl
      rcases List.mem_append.mp hl with hl | hl
      · exact h (.inr ⟨letter, hl, hquit⟩)
      · obtain rfl := List.mem_singleton.mp hl
        exact hq hquit

theorem Alert.take (h : c.Alert) {letter : Letter Message} {rest : List (Letter Message)}
    (hl : c.mailbox.letters = letter :: rest) : (c.takeIn letter rest).Alert := by
  have hfirst : letter.message.isQuit = true → c.interrupted = true := fun hquit =>
    h (.inr ⟨letter, hl ▸ List.mem_cons_self, hquit⟩)
  have hrest : (∃ l ∈ rest, l.message.isQuit = true) → c.interrupted = true :=
    fun ⟨l, hmem, hquit⟩ => h (.inr ⟨l, hl ▸ List.mem_cons_of_mem _ hmem, hquit⟩)
  unfold takeIn
  dsimp only
  split
  · rename_i hquit
    exact fun _ => hfirst hquit
  · rintro (hquit | hquit)
    · exact h (.inl hquit)
    · exact hrest hquit

inductive Phase (c : Course) : Prop
  | before (hs : c.stage.isEarly = true)
      (hi : c.installed = false) (hb : c.Blank)
  | during (hs : c.stage = .preparing ∨ c.stage = .running) (taken : Nat) (origin : Nat → Nat)
      (hk : c.Kept taken origin) (ha : c.Alert)
  | after (ho : c.Over) (handled dispatched : List Nat)
      (hd : Delivered c.postings c.handlings c.handovers handled dispatched)

theorem Phase.move_before (hs : c.stage.isEarly = true)
    (hi : c.installed = false) (hb : c.Blank) (hm : c.Move d) : d.Phase := by
  cases hm with
  | wait | interrupt => exact .before hs hi { hb with }
  | retire => exact .before hs rfl { hb with }
  | purge =>
    refine .before hs hi { hb with queue := ?_ }
    change (c.queue.removeAll _).2 = {}
    rw [hb.queue]
    rfl
  | post m d hm hq ho =>
    rcases ho with ho | ho
    · cases hi.symm.trans ho
    · rw [ho] at hs
      cases hs
  | renew s hr =>
    refine .before ?_ hi
      { hb with mailbox := rfl, queue := rfl, picked := rfl, quitting := rfl }
    rcases hr with ⟨_, rfl⟩ | ⟨he, _⟩
    · rfl
    · rw [he] at hs
      cases hs
  | climb s hfrom hto =>
    have hb' : Blank { c with stage := s } := { hb with }
    cases s with
    | preparing =>
      refine .during (.inl rfl) 0 id hb'.kept ?_
      rintro (hq | ⟨letter, hl, _⟩)
      · cases hb.quitting.symm.trans hq
      · rw [hb'.mailbox] at hl
        cases hl
    | pointing | opening | awaitingOpen => exact .before rfl hi hb'
    | absent | entering | running | exited => exact absurd hto (by decide)
  | giveUp _ hint =>
    have hb' : Blank { c with stage := .exited } := { hb with }
    obtain ⟨handled, dispatched, hd, _⟩ := hb'.kept.delivered
    exact .after ⟨rfl, hint, hi, hb.picked⟩ handled dispatched hd
  | install hr | take _ _ hr | setIdle _ hr | handle _ _ hr | close hr =>
    rw [hr] at hs
    cases hs
  | hand job hp => cases hb.picked.symm.trans hp

theorem Phase.move_during (hs : c.stage = .preparing ∨ c.stage = .running) {k : Nat}
    {o : Nat → Nat} (hk : c.Kept k o) (ha : c.Alert) (hm : c.Move d) : d.Phase := by
  cases hm with
  | wait t ht => exact .during hs k o (hk.wait ht) ha
  | interrupt => exact .during hs k o { hk with } fun _ => rfl
  | retire => exact .during hs k o { hk with } ha
  | post m d hm hq => exact .during ((post_stage c m d).symm ▸ hs) k o (hk.post d hm) (ha.post d hq)
  | install => exact .during (.inr rfl) k o { hk with } ha
  | take letter rest hr hl =>
    obtain ⟨o', hk'⟩ := hk.take hl
    refine .during (.inr ?_) (k + 1) o' hk' (ha.take hl)
    unfold takeIn
    dsimp only
    split <;> exact hr
  | purge => exact .during hs k o hk.purge ha
  | setIdle due _ hd => exact .during hs k o (hk.purge.setIdle hd) ha
  | handle e rest hr hp hl he =>
    have hmem : e ∈ c.entries := by
      rw [entries, (TimerQueue.popDue_eq_some he).1]
      exact List.mem_append_right _ List.mem_cons_self
    refine .during hs k o (hk.handle hp hl he) ?_
    rintro (hq | hq)
    · refine ha (.inl ?_)
      rwa [handle, hk.no_quit e hmem] at hq
    · exact ha (.inr hq)
  | close hr hp hq =>
    obtain ⟨handled, dispatched, hd, _⟩ := hk.delivered
    exact .after ⟨rfl, ha (.inl hq), rfl, hp⟩ handled dispatched hd
  | hand job hp => exact .during hs k o (hk.hand hp) ha
  | renew s hr => rcases hs with hs | hs <;> rcases hr with ⟨hr, _⟩ | ⟨hr, _⟩ <;> cases hs.symm.trans hr
  | climb s hfrom =>
    rcases hs with hs | hs
    all_goals
      rw [hs] at hfrom
      exact absurd hfrom (by decide)
  | giveUp hr => rcases hs with hs | hs <;> cases hs.symm.trans hr

theorem Phase.move (h : c.Phase) (hm : c.Move d) : d.Phase := by
  cases h with
  | before hs hi hb => exact move_before hs hi hb hm
  | during hs k o hk ha => exact move_during hs hk ha hm
  | after ho handled dispatched hd =>
    obtain ⟨ho', hp, hg, hj⟩ := ho.move hm
    exact .after ho' handled dispatched (by rwa [hp, hg, hj])

theorem Phase.moves (h : c.Phase) (hm : c.Moves d) : d.Phase := by
  induction hm with
  | refl => exact h
  | tail _ hm ih => exact ih.move hm

theorem Phase.kept (h : c.Phase) (hs : c.stage = .running) : ∃ k o, c.Kept k o := by
  cases h with
  | before hearly =>
    rw [hs] at hearly
    cases hearly
  | during _ k o hk => exact ⟨k, o, hk⟩
  | after ho => exact absurd hs (ho.stage_ne rfl)

/-- Only a loop that has exited has closed its mailbox. -/
theorem closed_move (h : c.mailbox.closed = true → c.stage = .exited) (hm : c.Move d) :
    d.mailbox.closed = true → d.stage = .exited := by
  cases hm with
  | wait | interrupt | retire | purge | setIdle | handle | hand => exact h
  | post m delay =>
    unfold post
    split
    · exact h
    · rename_i hopen
      rw [Mailbox.post, if_neg hopen]
      exact fun hc => absurd hc hopen
  | renew =>
    intro hc
    cases hc
  | climb s hfrom _ =>
    intro hc
    rw [h hc] at hfrom
    exact absurd hfrom (by decide)
  | giveUp => exact fun _ => rfl
  | install hs => exact fun hc => by cases hs.symm.trans (h hc)
  | take letter rest =>
    unfold takeIn
    dsimp only
    split <;> exact h
  | close => exact fun _ => rfl

theorem closed_moves (h : c.mailbox.closed = true → c.stage = .exited) (hm : c.Moves d) :
    d.mailbox.closed = true → d.stage = .exited := by
  induction hm with
  | refl => exact h
  | tail _ hm ih => exact closed_move ih hm

end Course

namespace Worker
variable {config : Config} {w w' v : Worker}

theorem phase (h : Reachable config w) : w.course.Phase := by
  refine h.induction (P := fun w => w.course.Phase) ?_ fun _ _ _ _ hw hs => hw.moves (step_moves hs)
  exact .before rfl rfl ⟨rfl, rfl, rfl, rfl, rfl, rfl, rfl⟩

theorem closed_exited (h : Reachable config w) :
    w.loop.mailbox.closed = true → w.loop.stage = .exited :=
  h.induction (P := fun w => w.loop.mailbox.closed = true → w.loop.stage = .exited) nofun
    fun _ _ _ _ hw hs => Course.closed_moves (c := course _) hw (step_moves hs)

theorem over_steps (ho : w.course.Over) {ls : List Label} (hs : w.steps ls = some v) :
    w.course.SameHistory v.course := by
  induction ls generalizing w with
  | nil =>
    cases hs
    exact ⟨rfl, rfl, rfl⟩
  | cons l ls ih =>
    obtain ⟨u, hl, hu⟩ := steps_cons_eq_some.mp hs
    obtain ⟨ho', hp, hg, hd⟩ := ho.moves (step_moves hl)
    obtain ⟨hp', hg', hd'⟩ := ih ho' hu
    exact ⟨hp'.trans hp, hg'.trans hg, hd'.trans hd⟩

/-! ## A request to quit -/

theorem takeInAll_quitting {l : Loop} {letter : Letter Message} (hl : letter ∈ l.mailbox.letters)
    (hq : letter.message = .quit) : (takeInAll l).quitting = true := by
  have hfold : ∀ (letters : List (Letter Message)) (k : Loop),
      k.quitting = true ∨ letter ∈ letters → (letters.foldl takeIn k).quitting = true := by
    intro letters
    induction letters with
    | nil => exact fun k hk => hk.resolve_right List.not_mem_nil
    | cons first letters ih =>
      intro k hk
      refine ih _ ?_
      rcases hk with hk | hk
      · left
        unfold takeIn
        split
        · rfl
        · exact hk
      · rcases List.mem_cons.mp hk with rfl | hk
        · left
          unfold takeIn
          rw [hq]
        · exact .inr hk
  exact hfold l.mailbox.letters l (.inr hl)

/-- The round that takes in a request to quit is the last one, and handles nothing. -/
theorem iterate_of_quit (h : Reachable config w) {letter : Letter Message}
    (hl : letter ∈ w.loop.mailbox.letters) (hq : letter.message = .quit)
    (hs : w.step .iterate = some w') : w'.course.Over ∧ w.course.SameHistory w'.course := by
  obtain ⟨hfree, rfl⟩ := iterate_of_step hs
  obtain ⟨hstage, hpicked, _⟩ := loopFree_facts hfree
  have hquit : (w.withLoop (takeInAll w.loop)).loop.quitting = true := takeInAll_quitting hl hq
  have hexit : w.iterate = (w.withLoop (takeInAll w.loop)).exitLoop := if_pos hquit
  have hint : w.interrupted = true := by
    cases phase h with
    | before hs =>
      have hearly : w.loop.stage.isEarly = true := hs
      rw [hstage] at hearly
      cases hearly
    | during _ k o hk ha => exact ha (.inr ⟨letter, hl, hq ▸ rfl⟩)
    | after ho => exact ho.interrupted
  rw [hexit]
  exact ⟨⟨rfl, hint, rfl, (takeInAll_facts w.loop).2.1.trans hpicked⟩, rfl, rfl, rfl⟩

/-! ## Delivery -/

theorem resting_facts (h : w.resting = true) :
    w.loop.mailbox.letters = [] ∧ ∀ e ∈ w.loop.queue.entries, w.now < e.due := by
  simp only [resting, Bool.and_eq_true, List.isEmpty_iff, Bool.not_eq_true', List.any_eq_false,
    decide_eq_true_eq, Nat.not_le] at h
  exact ⟨h.1.1.1, h.2⟩

/-- In every reachable state: each accepted submission is a posting, and each posting was handed to
dispatch once at most, not before its time; what was handled is in the order of due times and
posting, so jobs with equal delays run in the order in which they were submitted. A loop that is
about to block has dispatched every job that is due. From the round that takes in a request to
quit on nothing is handled and nothing dispatched. -/
theorem delivered_once_in_order (h : Reachable config w) :
    (∀ s w', w.look s = (some (.ok ()), w') →
      w'.postings = w.postings ++ [⟨w.now, s.delay, .request s.job⟩]) ∧
    (∀ p ∈ w.postings, p.OnClock → p.due = p.time + p.delay.nanos) ∧
    (∃ handled dispatched,
      Delivered w.postings w.handlings w.handovers handled dispatched ∧ dispatched.Nodup ∧
      (dispatched.Pairwise fun i j => ∀ p q, w.postings[i]? = some p → w.postings[j]? = some q →
        p.delay = q.delay → p.OnClock → i < j) ∧
      (w.loopFree = true → w.resting = true → ∀ i p job, w.postings[i]? = some p →
        p.message = .request job → p.due ≤ w.now → i ∈ dispatched)) ∧
    (∀ letter ∈ w.loop.mailbox.letters, letter.message = .quit → ∀ w' ls v,
      w.step .iterate = some w' → w'.steps ls = some v →
        v.handlings = w.handlings ∧ v.handovers = w.handovers) := by
  refine ⟨fun s w' => postings_of_look w, fun p _ => Posting.due_eq, ?_, ?_⟩
  · have hall : ∃ handled dispatched,
        Delivered w.postings w.handlings w.handovers handled dispatched ∧
        (w.loopFree = true → w.resting = true → ∀ i p job, w.postings[i]? = some p →
          p.message = .request job → p.due ≤ w.now → i ∈ dispatched) := by
      cases phase h with
      | before hs _ hb =>
        obtain ⟨handled, dispatched, hd, _⟩ := hb.kept.delivered
        refine ⟨handled, dispatched, hd, fun hfree => ?_⟩
        have hearly : w.loop.stage.isEarly = true := hs
        rw [(loopFree_facts hfree).1] at hearly
        cases hearly
      | during _ k o hk =>
        obtain ⟨handled, dispatched, hd, hrest⟩ := hk.delivered
        refine ⟨handled, dispatched, hd, fun hfree hresting => ?_⟩
        obtain ⟨hletters, hdue⟩ := resting_facts hresting
        exact hrest (loopFree_facts hfree).2.1 hletters hdue
      | after ho handled dispatched hd =>
        refine ⟨handled, dispatched, hd, fun hfree => ?_⟩
        have hidle : w.loop.stage.isIdle = true := ho.stage
        rw [(loopFree_facts hfree).1] at hidle
        cases hidle
    obtain ⟨handled, dispatched, hd, hrest⟩ := hall
    exact ⟨handled, dispatched, hd, hd.nodup, hd.fifo, hrest⟩
  · intro letter hl hq w' ls v hs hv
    obtain ⟨ho, _, hg, hd⟩ := iterate_of_quit h hl hq hs
    obtain ⟨_, hg', hd'⟩ := over_steps ho hv
    exact ⟨hg'.trans hg, hd'.trans hd⟩

def blankJob (n : Nat) : Job where
  id := .ofNat n
  isAsync := true
  plan := .finish (.ok ⟨"done"⟩)

/-- Submits a job that has to wait and one that has not, and lets both be dispatched. -/
def lateAndSoon : List Label :=
  opening ++ [.submit (blankJob 1) (.ofMillis 5), .submit (blankJob 2) .zero, .iterate,
    .dispatch ⟨true, false, true⟩, .iterate, .tick (.ofMillis 5), .iterate, .dispatch ⟨true, false, true⟩]

/-- The job that was submitted second is dispatched first, and each of them once. -/
theorem soon_before_late :
    ∃ w, Reachable {} w ∧ w.handovers.map Handover.job = [.ofNat 2, .ofNat 1] ∧
      ∃ handled dispatched, Delivered w.postings w.handlings w.handovers handled dispatched ∧
        dispatched.Nodup ∧ dispatched.length = 2 := by
  have h : ∃ w, Reachable {} w ∧ w.handovers.map Handover.job = [.ofNat 2, .ofNat 1] :=
    ⟨_, ⟨lateAndSoon, rfl⟩, rfl⟩
  obtain ⟨w, hw, hjobs⟩ := h
  obtain ⟨handled, dispatched, hd, hn, _⟩ := (delivered_once_in_order hw).2.2.1
  refine ⟨w, hw, hjobs, handled, dispatched, hd, hn, ?_⟩
  have hlength := congrArg List.length hjobs
  rw [List.length_map] at hlength
  exact hd.dispatched_posted.length_eq.trans hlength

end Worker

end Outbox
