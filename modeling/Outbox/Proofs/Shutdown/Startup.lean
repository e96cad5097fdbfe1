import Outbox.Proofs.Delivery.Life
import Outbox.Proofs.Turns

/-! # A shutdown while the loop starts

A shutdown asks the loop to quit only if producers know its mailbox, and a loop that has looked
whether its worker is interrupted does not look again before it prepares. So a shutdown that comes
in between is missed: the loop takes the pending jobs, lets producers in, and is never asked to
quit. Main statement: `stranded_iff_prepared`, this is the only way in which it happens. -/
namespace Outbox
set_option autoImplicit false

namespace Course
variable {c d : Course}

/-- The loop was asked to quit and knows it, or will when it takes in its letters. -/
def Asked (c : Course) : Prop :=
  c.quitting = true ∨ ∃ letter ∈ c.mailbox.letters, letter.message.isQuit = true

def QuitPosted (c : Course) : Prop := ∃ p ∈ c.postings, p.message.isQuit = true

/-! ## Who was asked -/

theorem Kept.quitPosted {k : Nat} {o : Nat → Nat} (h : c.Kept k o) {letter : Letter Message}
    (hl : letter ∈ c.mailbox.letters) (hq : letter.message.isQuit = true) : c.QuitPosted := by
  rw [h.letters] at hl
  obtain ⟨p, hp, rfl⟩ := List.mem_map.mp hl
  exact ⟨p, List.mem_of_mem_drop hp, hq⟩

/-- A loop that quits was asked to. -/
def Heard (c : Course) : Prop := c.quitting = true → c.QuitPosted

theorem Heard.move (hp : c.Phase) (h : c.Heard) (hm : c.Move d) : d.Heard := by
  cases hm with
  | post m delay =>
    unfold post
    split
    · exact h
    · intro hq
      obtain ⟨p, hmem, hquit⟩ := h hq
      exact ⟨p, List.mem_append_left _ hmem, hquit⟩
  | renew => exact nofun
  | take letter rest hs hl =>
    obtain ⟨k, o, hk⟩ := hp.kept hs
    unfold takeIn
    dsimp only
    split
    · rename_i hquit
      exact fun _ => hk.quitPosted (hl ▸ List.mem_cons_self) hquit
    · exact h
  | handle e rest hs _ _ he =>
    obtain ⟨k, o, hk⟩ := hp.kept hs
    have hmem : e ∈ c.entries := by
      rw [entries, (TimerQueue.popDue_eq_some he).1]
      exact List.mem_append_right _ List.mem_cons_self
    intro hq
    refine h ?_
    rwa [handle, hk.no_quit e hmem] at hq
  | wait | interrupt | retire | climb | giveUp | install | purge | setIdle | close | hand => exact h

theorem Heard.moves (hp : c.Phase) (h : c.Heard) (hm : c.Moves d) : d.Heard := by
  induction hm with
  | refl => exact h
  | tail hb hm ih => exact ih.move (hp.moves hb) hm

/-- A loop that was asked to quit runs on until it quits, and then it is over. -/
theorem Asked.move (h : c.Asked) (hs : c.stage = .running) (hi : c.interrupted = true)
    (hm : c.Move d) : (d.Asked ∧ d.stage = .running ∧ d.interrupted = true) ∨ d.Over := by
  cases hm with
  | wait | retire | purge | setIdle | hand => exact .inl ⟨h, hs, hi⟩
  | interrupt => exact .inl ⟨h, hs, rfl⟩
  | post m delay =>
    refine .inl ?_
    unfold post
    split
    · exact ⟨h, hs, hi⟩
    · rename_i hopen
      refine ⟨h.imp_right fun ⟨letter, hl, hq⟩ => ⟨letter, ?_, hq⟩, hs, hi⟩
      rw [Mailbox.post, if_neg hopen]
      exact List.mem_append_left _ hl
  | take letter rest _ hl =>
    refine .inl ?_
    unfold takeIn
    dsimp only
    split
    · exact ⟨.inl rfl, hs, hi⟩
    · rename_i hother
      refine ⟨h.imp_right fun ⟨q, hmem, hq⟩ => ⟨q, ?_, hq⟩, hs, hi⟩
      rw [hl] at hmem
      rcases List.mem_cons.mp hmem with rfl | hmem
      · exact absurd hq hother
      · exact hmem
  | handle e rest _ _ hl =>
    refine .inl ⟨.inl ?_, hs, hi⟩
    rcases h with hq | ⟨letter, hmem, _⟩
    · change (if e.item.isQuit then true else c.quitting) = true
      rw [hq, ite_self]
    · rw [hl] at hmem
      cases hmem
  | close _ hp => exact .inr ⟨rfl, hi, rfl, hp⟩
  | renew s hr => rcases hr with ⟨hr, _⟩ | ⟨hr, _⟩ <;> cases hs.symm.trans hr
  | climb s hfrom =>
    rw [hs] at hfrom
    exact absurd hfrom (by decide)
  | giveUp hr | install hr => cases hs.symm.trans hr

theorem Asked.moves (h : c.Asked) (hs : c.stage = .running) (hi : c.interrupted = true)
    (hm : c.Moves d) : (d.Asked ∧ d.stage = .running ∧ d.interrupted = true) ∨ d.Over := by
  induction hm with
  | refl => exact .inl ⟨h, hs, hi⟩
  | tail _ hm ih =>
    rcases ih with ⟨hb, hsb, hib⟩ | ho
    · exact hb.move hsb hib hm
    · exact .inr (ho.move hm).1

end Course

namespace Worker
variable {config : Config} {w v u u' : Worker} {l : Label}

theorem heard (h : Reachable config w) : w.course.Heard := by
  refine h.induction (P := fun w => w.course.Heard) nofun fun _ _ _ hr hw hs => ?_
  exact hw.moves (phase hr) (step_moves hs)

theorem asked_of_takeInAll {k : Loop} (hq : (takeInAll k).quitting = true) :
    k.quitting = true ∨ ∃ letter ∈ k.mailbox.letters, letter.message.isQuit = true := by
  have hfold : ∀ (letters : List (Letter Message)) (k : Loop),
      (letters.foldl takeIn k).quitting = true →
        k.quitting = true ∨ ∃ letter ∈ letters, letter.message.isQuit = true := by
    intro letters
    induction letters with
    | nil => exact fun k hk => .inl hk
    | cons first letters ih =>
      intro k hk
      rcases ih _ hk with hquit | ⟨letter, hl, hquit⟩
      · cases hm : first.message with
        | quit => exact .inr ⟨first, List.mem_cons_self, hm ▸ rfl⟩
        | request | idle | disarmIdle | armIdle | armStop =>
          rw [takeIn, hm] at hquit
          exact .inl hquit
      · exact .inr ⟨letter, List.mem_cons_of_mem _ hl, hquit⟩
  exact hfold k.mailbox.letters k hq

theorem quitPosted_of_asked (h : Reachable config w) (hs : w.loop.stage = .running)
    (ha : w.course.Asked) : w.course.QuitPosted := by
  rcases ha with hq | ⟨letter, hl, hq⟩
  · exact heard h hq
  · obtain ⟨k, o, hk⟩ := (phase h).kept hs
    exact hk.quitPosted hl hq

theorem Onward.quitPosted (h : Onward w v) (hp : v.course.QuitPosted) : w.course.QuitPosted := by
  obtain ⟨news, hj, hnews⟩ := h.news
  obtain ⟨p, hp, hq⟩ := hp
  obtain ⟨e, he, hpost⟩ := List.mem_filterMap.mp (List.mem_reverse.mp hp)
  rw [hj] at he
  rcases List.mem_append.mp he with he | he
  · have hnot := hnews e he
    unfold JournalEntry.posting? at hpost
    split at hpost
    · rename_i delay message hevent
      cases hpost
      rw [hevent] at hnot
      cases message with
      | quit => cases hnot
      | request | idle | disarmIdle | armIdle | armStop => cases hq
    · cases hpost
  · exact ⟨p, List.mem_reverse.mpr (List.mem_filterMap.mpr ⟨e, he, hpost⟩), hq⟩

/-! ## Before the shutdown -/

/-- Until it is interrupted a worker has asked nobody to quit, and producers know the mailbox of
its loop just while that runs. -/
theorem installed_iff_running (h : Reachable config w) (hi : w.interrupted = false) :
    (w.installed = true ↔ w.loop.stage = .running) ∧ ¬ w.course.QuitPosted := by
  refine h.induction (P := fun w => w.interrupted = false →
    (w.installed = true ↔ w.loop.stage = .running) ∧ ¬ w.course.QuitPosted) ?_ ?_ hi
  · refine fun _ => ⟨⟨nofun, nofun⟩, ?_⟩
    rintro ⟨p, hp, _⟩
    cases hp
  · intro w l v hr ih hs hiv
    cases step_turn hs with
    | silenced => cases hiv
    | steady _ hv =>
      obtain ⟨hin, hn⟩ := ih (hv.interrupted.symm.trans hiv)
      rw [hv.installed, hv.stage]
      exact ⟨hin, fun hp => hn (hv.onward.quitPosted hp)⟩
    | shifted _ ho hin hshift =>
      obtain ⟨hiff, hn⟩ := ih (ho.interrupted.symm.trans hiv)
      refine ⟨?_, fun hp => hn (ho.onward.quitPosted hp)⟩
      rw [hin, hiff]
      generalize w.loop.stage = s, v.loop.stage = t at hshift
      cases hshift with
      | start | join | giveUp | enter => exact ⟨nofun, nofun⟩
      | climb hfrom hto =>
        constructor
        · rintro rfl
          cases hfrom
        · rintro rfl
          cases hto
    | prepared pending hint _ hrun hin hj =>
      obtain ⟨_, hn⟩ := ih (hint.symm.trans hiv)
      exact ⟨⟨fun _ => hrun, fun _ => hin⟩, fun hp => hn ((onward_of_replay hint hj).quitPosted hp)⟩
    | closed ho hrun hq =>
      obtain ⟨_, hn⟩ := ih (ho.interrupted.symm.trans hiv)
      exact absurd (quitPosted_of_asked hr hrun (asked_of_takeInAll hq)) hn

/-! ## After the shutdown -/

/-- The worker is interrupted, and nothing will ever tell its running loop. -/
structure Stranded (u : Worker) : Prop where
  interrupted : u.interrupted = true
  stage : u.loop.stage = .running
  unasked : ¬ u.course.Asked

/-- The loop is over, or runs and was asked to quit. -/
inductive Ending (u : Worker) : Prop
  | past (ho : u.course.Over)
  | asked (hs : u.loop.stage = .running) (ha : u.course.Asked)

/-- The loop was not asked to quit, and has prepared or will. -/
inductive Missed (u : Worker) : Bool → Prop
  | opening (hs : u.loop.stage.isOpening = true) (hn : ¬ u.course.QuitPosted) : Missed u false
  | prepared (hs : u.loop.stage = .running) (hn : ¬ u.course.QuitPosted) : Missed u true

theorem Ending.not_stranded (h : u.Ending) : ¬ u.Stranded := by
  rintro ⟨_, hs, hn⟩
  cases h with
  | past ho => exact ho.stage_ne rfl hs
  | asked _ ha => exact hn ha

theorem Ending.step (h : u.Ending) (hi : u.interrupted = true) (hs : u.step l = some u') :
    u'.Ending ∧ l.isPrepare = false := by
  cases h with
  | past ho =>
    exact ⟨.past (ho.moves (step_moves hs)).1, Bool.eq_false_iff.mpr fun hl =>
      ho.stage_ne rfl (preparing_of_step hs hl)⟩
  | asked hrun ha =>
    refine ⟨?_, Bool.eq_false_iff.mpr fun hl => ?_⟩
    · rcases ha.moves hrun hi (step_moves hs) with ⟨ha', hrun', _⟩ | ho
      · exact .asked hrun' ha'
      · exact .past ho
    · cases hrun.symm.trans (preparing_of_step hs hl)

theorem Missed.step {b : Bool} (h : u.Missed b) (hr : Reachable config u)
    (hi : u.interrupted = true) (hs : u.step l = some u') : u'.Missed (b || l.isPrepare) := by
  cases h with
  | opening hopen hn =>
    cases step_turn hs with
    | silenced hi' => cases hi'.symm.trans hi
    | steady hl hv =>
      rw [hl]
      exact .opening (hv.stage ▸ hopen) fun hp => hn (hv.onward.quitPosted hp)
    | shifted hl ho _ hshift =>
      rw [hl]
      refine .opening ?_ fun hp => hn (ho.onward.quitPosted hp)
      generalize u.loop.stage = s, u'.loop.stage = t at hshift hopen
      cases hshift with
      | climb _ hto => exact hto
      | start | join | giveUp | enter => cases hopen
    | prepared pending hint _ hrun _ hj =>
      exact .prepared hrun fun hp => hn ((onward_of_replay hint hj).quitPosted hp)
    | closed _ hrun =>
      rw [hrun] at hopen
      cases hopen
  | prepared hrun hn =>
    cases step_turn hs with
    | silenced hi' => cases hi'.symm.trans hi
    | steady _ hv => exact .prepared (hv.stage.trans hrun) fun hp => hn (hv.onward.quitPosted hp)
    | shifted _ _ _ hshift =>
      rw [hrun] at hshift
      cases hshift with
      | climb hopen => cases hopen
    | prepared _ _ hprep => cases hrun.symm.trans hprep
    | closed _ _ hq => exact absurd (quitPosted_of_asked hr hrun (asked_of_takeInAll hq)) hn

theorem Missed.stranded_iff {b : Bool} (h : u.Missed b) (hr : Reachable config u)
    (hi : u.interrupted = true) : u.Stranded ↔ b = true := by
  cases h with
  | opening hopen =>
    refine ⟨fun hst => ?_, nofun⟩
    rw [hst.stage] at hopen
    cases hopen
  | prepared hrun hn =>
    exact ⟨fun _ => rfl, fun _ => ⟨hi, hrun, fun ha => hn (quitPosted_of_asked hr hrun ha)⟩⟩

/-! ## The whole run -/

theorem Ending.steps {ls : List Label} (h : v.Ending) (hi : v.interrupted = true)
    (hs : v.steps ls = some u) : u.Ending ∧ ls.any Label.isPrepare = false := by
  induction ls generalizing v with
  | nil =>
    cases hs
    exact ⟨h, rfl⟩
  | cons l ls ih =>
    obtain ⟨x, hl, hx⟩ := steps_cons_eq_some.mp hs
    obtain ⟨hx', hnot⟩ := h.step hi hl
    obtain ⟨hu, hrest⟩ := ih hx' (interrupted_of_step hi hl) hx
    exact ⟨hu, by rw [List.any_cons, hnot, hrest]; rfl⟩

theorem Missed.steps {ls : List Label} {b : Bool} (h : v.Missed b) (hr : Reachable config v)
    (hi : v.interrupted = true) (hs : v.steps ls = some u) :
    u.Missed (b || ls.any Label.isPrepare) := by
  induction ls generalizing v b with
  | nil =>
    cases hs
    rw [List.any_nil, Bool.or_false]
    exact h
  | cons l ls ih =>
    obtain ⟨x, hl, hx⟩ := steps_cons_eq_some.mp hs
    have hu := ih (h.step hr hi hl) (hr.step hl) (interrupted_of_step hi hl) hx
    rwa [Bool.or_assoc, ← List.any_cons] at hu

/-! ## The shutdown -/

theorem quit_of_shutdown (h : Reachable config w) (hi : w.interrupted = false)
    (hs : w.loop.stage = .running) :
    ∃ letter ∈ w.shutdown.loop.mailbox.letters, letter.message = .quit := by
  have hin : w.installed = true := (installed_iff_running h hi).1.mpr hs
  have hopen : ¬ w.loop.mailbox.closed = true := fun hc => by
    cases hs.symm.trans (closed_exited h hc)
  have hloop : w.silenced.loop =
      { w.loop with mailbox := (w.loop.mailbox.post w.now .quit .zero).2 } := if_pos hin
  rw [shutdown_eq hi, hloop, Mailbox.post, if_neg hopen]
  exact ⟨_, List.mem_append_right _ (List.mem_singleton_self _), rfl⟩

theorem ending_of_shutdown (h : Reachable config w) (hi : w.interrupted = false)
    (hs : w.loop.stage.isOpening = false) : w.shutdown.Ending := by
  have hstage := silenced_stage w
  cases phase h with
  | before hearly hin hb =>
    rw [shutdown_eq hi]
    have hin : w.installed = false := hin
    have hloop := silenced_loop hin
    refine .past ⟨?_, rfl, rfl, ?_⟩
    · change w.silenced.loop.stage.isIdle = true
      have hearly : w.loop.stage.isEarly = true := hearly
      rw [hstage]
      cases hst : w.loop.stage with
      | absent | entering | exited => rfl
      | pointing | opening | awaitingOpen | preparing =>
        rw [hst] at hs
        cases hs
      | running =>
        rw [hst] at hearly
        cases hearly
    · change w.silenced.loop.picked = none
      rw [hloop]
      exact hb.picked
  | during hst =>
    rcases hst with hst | hst
    · have hst : w.loop.stage = .preparing := hst
      rw [hst] at hs
      cases hs
    · obtain ⟨letter, hl, hq⟩ := quit_of_shutdown h hi hst
      refine .asked ?_ (.inr ⟨letter, hl, hq ▸ rfl⟩)
      rw [shutdown_eq hi, hstage]
      exact hst
  | after ho => cases hi.symm.trans ho.interrupted

/-- Nobody knows the mailbox yet, so the loop is not asked to quit. -/
theorem missed_of_shutdown (h : Reachable config w) (hi : w.interrupted = false)
    (hs : w.loop.stage.isOpening = true) : w.shutdown.Missed false := by
  obtain ⟨hiff, hn⟩ := installed_iff_running h hi
  have hin : w.installed = false := by
    refine Bool.eq_false_iff.mpr fun hin => ?_
    rw [hiff.mp hin] at hs
    cases hs
  have hloop := silenced_loop hin
  have hpostings : w.silenced.postings = w.postings := by
    have hfarewell : w.farewell.filterMap JournalEntry.posting? = [] := by
      unfold farewell
      rw [hin]
      cases w.linked <;> rfl
    have hj : w.silenced.journal = w.farewell ++ w.journal := rfl
    rw [postings, hj, List.filterMap_append, hfarewell]
    rfl
  rw [shutdown_eq hi]
  refine .opening (hloop ▸ hs) fun hp => hn ?_
  obtain ⟨p, hp, hq⟩ := hp
  have hmem : p ∈ w.postings := hpostings ▸ hp
  exact ⟨p, hmem, hq⟩

/-- A shutdown is missed by a loop that is past its look at the flag and prepares after it: that
loop runs on, and neither was asked to quit nor ever will be. In every other case no loop prepares
after the shutdown, and a loop that runs already is asked to quit. -/
theorem stranded_iff_prepared (h : Reachable config w) (hi : w.interrupted = false)
    (hv : w.step .shutdown = some v) {ls : List Label} (hu : v.steps ls = some u) :
    (u.Stranded ↔ ∃ pending, .prepare pending ∈ ls) ∧
    ((∃ pending, .prepare pending ∈ ls) → w.loop.stage.isOpening = true) ∧
    (w.loop.stage = .running →
      ∃ letter ∈ v.loop.mailbox.letters, letter.message = .quit) := by
  have hreach := h.step hv
  cases hv
  have hint := shutdown_interrupted w
  have hany : (∃ pending, .prepare pending ∈ ls) ↔ ls.any Label.isPrepare = true := by
    rw [List.any_eq_true]
    constructor
    · rintro ⟨pending, hmem⟩
      exact ⟨_, hmem, rfl⟩
    · rintro ⟨l, hmem, hl⟩
      cases l with
      | prepare pending => exact ⟨pending, hmem⟩
      | _ => cases hl
  have hquit := quit_of_shutdown h hi
  rw [hany]
  cases hs : w.loop.stage.isOpening with
  | true =>
    have hmissed := (missed_of_shutdown h hi hs).steps hreach hint hu
    rw [Bool.false_or] at hmissed
    have hstill := interrupted_of_steps hint hu
    exact ⟨hmissed.stranded_iff (hreach.steps hu) hstill, fun _ => rfl, hquit⟩
  | false =>
    obtain ⟨hending, hnone⟩ := (ending_of_shutdown h hi hs).steps hint hu
    rw [hnone]
    exact ⟨⟨fun hst => absurd hst hending.not_stranded, nofun⟩, nofun, hquit⟩

/-- Takes a new worker to the start of its connection, which may take any time. -/
def connecting : List Label := [.start, .enter, .point, .openLink]

/-- The shutdown comes while the connection is started: the job that was pending is taken over,
and the loop runs on. -/
theorem stranded_while_connecting :
    ∃ w v u, Reachable {} w ∧ w.interrupted = false ∧ w.step .shutdown = some v ∧
      v.steps [.opened, .prepare [blankJob 1], .iterate] = some u ∧ u.Stranded ∧
      u.loop.picked.map Job.id = some (.ofNat 1) := by
  have h : ∃ w v u, Reachable {} w ∧ w.interrupted = false ∧ w.step .shutdown = some v ∧
      v.steps [.opened, .prepare [blankJob 1], .iterate] = some u ∧
      u.loop.picked.map Job.id = some (.ofNat 1) :=
    ⟨_, _, _, ⟨connecting, rfl⟩, rfl, rfl, rfl, rfl⟩
  obtain ⟨w, v, u, hw, hi, hv, hu, hjob⟩ := h
  have hprepared : ∃ pending, .prepare pending ∈
      [Label.opened, .prepare [blankJob 1], .iterate] :=
    ⟨_, List.mem_cons_of_mem _ List.mem_cons_self⟩
  exact ⟨w, v, u, hw, hi, hv, hu, (stranded_iff_prepared hw hi hv hu).1.mpr hprepared, hjob⟩

end Worker

end Outbox
