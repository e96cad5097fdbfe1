import Mathlib.Data.List.Induction
import Outbox.Proofs.Replay.Next
import Outbox.Proofs.Turns

/-! # What the loop takes over comes first

The loop of a worker prepares once, if ever. The jobs that it takes over then are posted before
anything else and without delay, so they are dispatched in their order and before everything else,
also before the job of a submission that waited for the loop. Main statement: `replays_first`. -/
namespace Outbox
set_option autoImplicit false

def Posting.request? (p : Posting) : Option JobId := p.message.job?.map Job.id

/-- The jobs that are taken over. -/
def Label.pending : Label → List Job
  | .prepare pending => pending
  | _ => []

theorem Course.Phase.delivered {c : Course} (h : c.Phase) :
    ∃ handled dispatched, Delivered c.postings c.handlings c.handovers handled dispatched := by
  cases h with
  | before _ _ hb =>
    obtain ⟨handled, dispatched, hd, _⟩ := hb.kept.delivered
    exact ⟨handled, dispatched, hd⟩
  | during _ k o hk =>
    obtain ⟨handled, dispatched, hd, _⟩ := hk.delivered
    exact ⟨handled, dispatched, hd⟩
  | after _ handled dispatched hd => exact ⟨handled, dispatched, hd⟩

namespace Worker
variable {config : Config} {w v : Worker} {l : Label} {ls : List Label} {jobs : List Job}
  {t : Instant} {rest : List Posting}

/-- The jobs that were accepted, first first. -/
def acceptances (w : Worker) : List JobId := (w.journal.filterMap (·.event.accepted?)).reverse

/-- All that a run takes over. -/
def takenOver (ls : List Label) : List Job := ls.flatMap Label.pending

/-! ## What comes to the postings -/

section News
variable {news : List JournalEntry}

theorem postings_of_news (hj : v.journal = news ++ w.journal) :
    v.postings = w.postings ++ (news.filterMap JournalEntry.posting?).reverse := by
  rw [postings, hj, List.filterMap_append, List.reverse_append]
  rfl

theorem acceptances_of_news (hj : v.journal = news ++ w.journal) :
    v.acceptances = w.acceptances ++ (news.filterMap (·.event.accepted?)).reverse := by
  rw [acceptances, hj, List.filterMap_append, List.reverse_append]
  rfl

theorem request?_posting? (e : JournalEntry) :
    e.posting?.bind Posting.request? = e.event.request? := by
  unfold JournalEntry.posting?
  cases e.event with
  | posted d m => cases m <;> rfl
  | _ => rfl

theorem requests_of_news (news : List JournalEntry) :
    (news.filterMap JournalEntry.posting?).reverse.filterMap Posting.request? =
      (news.filterMap (·.event.request?)).reverse := by
  rw [List.filterMap_reverse, List.filterMap_filterMap]
  exact congrArg (fun f => (news.filterMap f).reverse) (funext request?_posting?)

end News

theorem farewell_matched (w : Worker) :
    w.farewell.filterMap (·.event.accepted?) = w.farewell.filterMap (·.event.request?) := by
  unfold farewell
  cases w.linked <;> cases w.installed <;> cases w.loop.mailbox.closed <;> rfl

/-- The jobs were taken over at `t`; what was posted since holds the accepted jobs and no others. -/
structure Opened (w : Worker) (jobs : List Job) (t : Instant) (rest : List Posting) : Prop where
  postings : w.postings = jobs.map (Posting.pending t) ++ rest
  accepted : rest.filterMap Posting.request? = w.acceptances

theorem Opened.grow (h : w.Opened jobs t rest) {news : List JournalEntry}
    (hj : v.journal = news ++ w.journal)
    (hm : news.filterMap (·.event.accepted?) = news.filterMap (·.event.request?)) :
    ∃ rest, v.Opened jobs t rest := by
  refine ⟨rest ++ (news.filterMap JournalEntry.posting?).reverse, ?_, ?_⟩
  · rw [postings_of_news hj, h.postings, List.append_assoc]
  · rw [List.filterMap_append, h.accepted, requests_of_news, acceptances_of_news hj, hm]

theorem hasRoom (h : Reachable config w) : w.now.HasRoom := by
  have hzero : 0 + Duration.farFuture.nanos < Instant.limit := by decide
  exact h.induction (P := fun w => w.now.HasRoom) hzero fun _ _ _ _ hw hs =>
    Course.hasRoom_moves (c := course _) hw (step_moves hs)

theorem unfilled (h : Reachable config w) :
    w.loop.stage ≠ .running → w.loop.queue.entries = [] :=
  h.induction (P := fun w => w.loop.stage ≠ .running → w.loop.queue.entries = []) (fun _ => rfl)
    fun _ _ _ _ hw hs => Course.unfilled_moves (c := course _) hw (step_moves hs)

/-! ## Before the loop prepares -/

/-- Nobody knows the mailbox and nothing was posted. -/
structure Unopened (w : Worker) : Prop where
  installed : w.installed = false
  stage : w.loop.stage ≠ .running
  postings : w.postings = []
  acceptances : w.acceptances = []

theorem Unopened.grow (h : w.Unopened) {news : List JournalEntry} (hin : v.installed = false)
    (hs : v.loop.stage ≠ .running) (hj : v.journal = news ++ w.journal)
    (hmute : ∀ e ∈ news, e.event.isPosted = false ∧ e.event.accepted? = none) : v.Unopened := by
  have hnone : news.filterMap JournalEntry.posting? = [] := by
    refine List.filterMap_eq_nil_iff.mpr fun e he => ?_
    have hposted := (hmute e he).1
    unfold JournalEntry.posting?
    split
    · rename_i hevent
      rw [hevent] at hposted
      cases hposted
    · rfl
  have haccepted : news.filterMap (·.event.accepted?) = [] :=
    List.filterMap_eq_nil_iff.mpr fun e he => (hmute e he).2
  refine ⟨hin, hs, ?_, ?_⟩
  · rw [postings_of_news hj, h.postings, hnone]
    rfl
  · rw [acceptances_of_news hj, h.acceptances, haccepted]
    rfl

theorem Routine.mute_accepted {news : List JournalEntry} (h : w.Routine news)
    (hin : w.installed = false) :
    ∀ e ∈ news, e.event.isPosted = false ∧ e.event.accepted? = none := by
  have hrequests : news.filterMap (·.event.request?) = [] := by
    refine List.filterMap_eq_nil_iff.mpr fun e he => ?_
    have hposted := h.mute hin e he
    cases hevent : e.event with
    | posted =>
      rw [hevent] at hposted
      cases hposted
    | _ => rfl
  intro e he
  exact ⟨h.mute hin e he, List.filterMap_eq_nil_iff.mp (h.matched.trans hrequests) e he⟩

theorem Unopened.ordinary (h : w.Unopened) (ho : Ordinary w v) (hin : v.installed = w.installed)
    (hs : v.loop.stage ≠ .running) : v.Unopened := by
  obtain ⟨news, hj, hnews⟩ := ho.news
  exact h.grow (hin.trans h.installed) hs hj (hnews.mute_accepted h.installed)

theorem Unopened.silenced (h : w.Unopened) : w.silenced.Unopened := by
  refine h.grow rfl (silenced_stage w ▸ h.stage) rfl ?_
  unfold farewell
  rw [h.installed]
  cases w.linked with
  | true => exact List.forall_mem_singleton.mpr ⟨rfl, rfl⟩
  | false => exact List.forall_mem_nil _

/-- A loop that prepares posts the jobs before anything else. -/
theorem Unopened.opened (h : w.Unopened) (hc : w.loop.mailbox.closed = false)
    (hj : v.journal = w.replay jobs ++ w.journal) : v.Opened jobs w.now [] := by
  have hreplay : w.replay jobs =
      (jobs.map fun job => ⟨w.now, .posted .zero (.request job)⟩).reverse :=
    if_neg (Bool.eq_false_iff.mp hc)
  rw [hreplay] at hj
  constructor
  · rw [postings_of_news hj, h.postings, List.filterMap_reverse, List.reverse_reverse,
      List.filterMap_map, List.append_nil, List.nil_append]
    exact congrFun List.filterMap_eq_map jobs
  · rw [acceptances_of_news hj, h.acceptances, List.filterMap_reverse, List.reverse_reverse,
      List.filterMap_map, List.nil_append]
    exact (List.filterMap_eq_nil_iff.mpr fun _ _ => rfl).symm

theorem Opened.led (h : v.Opened jobs t []) (hr : Reachable config w)
    (hs : w.step (.prepare jobs) = some v) : v.course.Led jobs t := by
  obtain ⟨hprep, rfl⟩ := atStage_eq_some hs
  obtain ⟨mailbox, _, he⟩ := prepare_eq w jobs
  have hqueue : (w.prepare jobs).loop.queue = w.loop.queue := by rw [he]
  have hnone : (w.prepare jobs).course.queue.entries = [] :=
    (congrArg _ hqueue).trans (unfilled hr fun hrun => by cases hprep.symm.trans hrun)
  refine ⟨⟨[], h.postings⟩, fun e hmem => ?_⟩
  rw [hnone] at hmem
  cases hmem

/-- A step either leaves it so, or the loop prepares. -/
theorem Unopened.step (h : w.Unopened) (hr : Reachable config w) (hs : w.step l = some v) :
    (l.isPrepare = false ∧ v.Unopened) ∨ ∃ pending, l = .prepare pending ∧
      v.loop.stage = .running ∧ v.Opened pending w.now [] ∧ v.course.Led pending w.now := by
  cases step_turn hs with
  | steady hl hv =>
    exact .inl ⟨hl, h.ordinary hv.toOrdinary hv.installed (hv.stage.symm ▸ h.stage)⟩
  | silenced => exact .inl ⟨rfl, h.silenced⟩
  | shifted hl ho hin hshift =>
    refine .inl ⟨hl, h.ordinary ho hin fun hrun => ?_⟩
    rw [hrun] at hshift
    generalize w.loop.stage = s at hshift
    cases hshift with
    | climb _ hto => cases hto
  | prepared pending _ hprep hrun _ hj =>
    have hopen : w.loop.mailbox.closed = false := by
      refine Bool.eq_false_iff.mpr fun hc => ?_
      cases hprep.symm.trans (closed_exited hr hc)
    have hopened := h.opened hopen hj
    exact .inr ⟨pending, rfl, hrun, hopened, hopened.led hr hs⟩
  | closed _ hrun => exact absurd hrun h.stage

/-! ## After the loop has prepared -/

/-- The loop runs, or a shutdown has ended it. -/
def Settled (w : Worker) : Prop := w.loop.stage = .running ∨ w.course.Over

theorem over_of_exited (h : Reachable config w) (hs : w.loop.stage = .exited) : w.course.Over := by
  cases phase h with
  | before hearly =>
    have hearly : w.loop.stage.isEarly = true := hearly
    rw [hs] at hearly
    cases hearly
  | during hrun =>
    have hrun : w.loop.stage = .preparing ∨ w.loop.stage = .running := hrun
    rw [hs] at hrun
    rcases hrun with h | h <;> cases h
  | after ho => exact ho

theorem Settled.step (h : w.Settled) (hr : Reachable config w) (hs : w.step l = some v) :
    l.isPrepare = false ∧ v.Settled := by
  constructor
  · refine Bool.eq_false_iff.mpr fun hl => ?_
    have hprep := preparing_of_step hs hl
    rcases h with hrun | ho
    · cases hprep.symm.trans hrun
    · exact ho.stage_ne rfl hprep
  · rcases h with hrun | ho
    · cases step_turn hs with
      | steady _ hv => exact .inl (hv.stage.trans hrun)
      | silenced => exact .inl ((silenced_stage w).trans hrun)
      | shifted _ _ _ hshift =>
        rw [hrun] at hshift
        cases hshift with
        | climb hopen => cases hopen
      | prepared _ _ hprep => cases hprep.symm.trans hrun
      | closed _ _ _ hexit => exact .inr (over_of_exited (hr.step hs) hexit)
    · exact .inr (ho.moves (step_moves hs)).1

theorem Opened.step (h : w.Opened jobs t rest) (hl : l.isPrepare = false)
    (hs : w.step l = some v) : ∃ rest, v.Opened jobs t rest := by
  have hordinary : Ordinary w v → ∃ rest, v.Opened jobs t rest := by
    intro ho
    obtain ⟨news, hj, hnews⟩ := ho.news
    exact h.grow hj hnews.matched
  cases step_turn hs with
  | steady _ hv => exact hordinary hv.toOrdinary
  | silenced => exact h.grow rfl (farewell_matched w)
  | shifted _ ho => exact hordinary ho
  | prepared => cases hl
  | closed ho => exact hordinary ho

/-! ## A whole run -/

/-- How often the loop prepared in a run, and what came of it. -/
inductive Chapter (w : Worker) (ls : List Label) : Prop
  | unopened (hn : ls.countP Label.isPrepare = 0) (h : w.Unopened)
  | opened (hn : ls.countP Label.isPrepare = 1) (hs : w.Settled)
      (h : ∃ t rest, w.Opened (takenOver ls) t rest ∧ w.course.Led (takenOver ls) t)

theorem takenOver_snoc (ls : List Label) (hl : l.isPrepare = false) :
    takenOver (ls ++ [l]) = takenOver ls := by
  have hnone : l.pending = [] := by
    cases l with
    | prepare => cases hl
    | _ => rfl
  rw [takenOver, List.flatMap_append, List.flatMap_singleton, hnone, List.append_nil]
  rfl

theorem prepares_snoc (ls : List Label) (hl : l.isPrepare = false) :
    (ls ++ [l]).countP Label.isPrepare = ls.countP Label.isPrepare := by
  rw [List.countP_append, List.countP_singleton, hl]
  rfl

theorem takenOver_nil (hn : ls.countP Label.isPrepare = 0) : takenOver ls = [] := by
  refine List.flatMap_eq_nil_iff.mpr fun l hl => ?_
  have hnot := List.countP_eq_zero.mp hn l hl
  cases l with
  | prepare => exact absurd rfl hnot
  | _ => rfl

theorem Chapter.step (h : w.Chapter ls) (hr : Reachable config w) (hs : w.step l = some v) :
    v.Chapter (ls ++ [l]) := by
  cases h with
  | unopened hn h =>
    rcases h.step hr hs with ⟨hl, hv⟩ | ⟨pending, rfl, hrun, hv, hled⟩
    · exact .unopened ((prepares_snoc ls hl).trans hn) hv
    · refine .opened ?_ (.inl hrun) ⟨w.now, [], ?_⟩
      · rw [List.countP_append, hn]
        rfl
      · rw [takenOver, List.flatMap_append, ← takenOver, takenOver_nil hn, List.nil_append,
          List.flatMap_singleton]
        exact ⟨hv, hled⟩
  | opened hn hstage h =>
    obtain ⟨t, rest, h, hled⟩ := h
    obtain ⟨hl, hv⟩ := hstage.step hr hs
    obtain ⟨rest, h'⟩ := h.step hl hs
    refine .opened ((prepares_snoc ls hl).trans hn) hv ⟨t, rest, ?_⟩
    rw [takenOver_snoc ls hl]
    exact ⟨h', hled.moves (phase hr) (hasRoom hr) (step_moves hs)⟩

theorem chapter_of_steps (hs : (create config 0).steps ls = some w) : w.Chapter ls := by
  induction ls using List.reverseRecOn generalizing w with
  | nil =>
    cases hs
    exact .unopened rfl ⟨rfl, nofun, rfl, rfl⟩
  | append_singleton ls l ih =>
    rw [steps_append] at hs
    obtain ⟨u, hu, hl⟩ := Option.bind_eq_some_iff.mp hs
    exact (ih hu).step ⟨ls, hu⟩ ((steps_single u l).symm.trans hl)

/-! ## First dispatched -/

/-- The jobs were taken over at `t`, before all else that was posted. They are what was dispatched
first, and what was dispatched since, `later`, are other postings, each once at most. -/
structure ReplaysFirst (w : Worker) (jobs : List Job) (t : Instant) (rest : List Posting)
    (later : List Nat) : Prop extends w.Opened jobs t rest where
  first : (w.handovers.take jobs.length).map Handover.job =
    (jobs.take w.handovers.length).map Job.id
  others : List.Forall₂ (fun i d => ∃ p job, rest[i]? = some p ∧ p.message = .request job ∧
    d.job = job.id) later (w.handovers.drop jobs.length)
  once : later.Nodup
  /-- A round takes up the next of the jobs, if any is left, but for the round that finds that
  the worker was shut down. -/
  next : ∀ v, w.step .iterate = some v → ∀ h : w.handovers.length < jobs.length,
    v.loop.picked = some jobs[w.handovers.length] ∨
      v.loop.stage = .exited ∧ v.interrupted = true
  /-- A loop does not block while one of the jobs is left. -/
  at_rest : w.loopFree = true → w.resting = true → jobs.length ≤ w.handovers.length

theorem picked_of_iterate (w : Worker) (hq : (takeInAll w.loop).quitting = false)
    {e : TimerQueue.Entry Message} {queue : TimerQueue Message} {job : Job}
    (he : (takeInAll w.loop).queue.popDue w.now = (some e, queue)) (hitem : e.item = .request job) :
    w.iterate.loop.picked = some job := by
  have hround : w.iterate =
      ((w.withLoop (takeInAll w.loop)).withLoop { takeInAll w.loop with queue }).handle e := by
    unfold iterate
    dsimp only [withLoop]
    rw [if_neg (Bool.eq_false_iff.mp hq), he]
  rw [hround, handle, hitem]
  rfl

section Led
variable (hled : w.course.Led jobs t) (hr : Reachable config w)
include hled hr

theorem next_of_led (hs : w.step .iterate = some v) (hlt : w.handovers.length < jobs.length) :
    v.loop.picked = some jobs[w.handovers.length] ∨
      v.loop.stage = .exited ∧ v.interrupted = true := by
  have hv := hr.step hs
  obtain ⟨hfree, rfl⟩ := iterate_of_step hs
  obtain ⟨hstage, hpicked, _⟩ := loopFree_facts hfree
  rcases iterate_spec w with ⟨_, he⟩ | ⟨hq, _⟩
  · have hexit : w.iterate.loop.stage = .exited := he ▸ rfl
    exact .inr ⟨hexit, (over_of_exited hv hexit).interrupted⟩
  · have htake : w.course.Moves (w.withLoop (takeInAll w.loop)).course :=
      moves_takeIn w w.loop.mailbox.letters w.loop hstage
    obtain ⟨hstage', hpicked', hletters⟩ := takeInAll_facts w.loop
    have hroom := hasRoom hr
    obtain ⟨_, _, hk⟩ := ((phase hr).moves htake).kept (hstage'.trans hstage)
    obtain ⟨e, queue, hdue, hitem⟩ := hk.next (hled.moves (phase hr) hroom htake)
      (Course.hasRoom_moves (c := w.course) hroom htake) (hpicked'.trans hpicked) hletters hlt
    exact .inl (picked_of_iterate w hq hdue hitem)

theorem at_rest_of_led (hfree : w.loopFree = true) (hrest : w.resting = true) :
    jobs.length ≤ w.handovers.length := by
  obtain ⟨hstage, hpicked, _⟩ := loopFree_facts hfree
  obtain ⟨hletters, hlate⟩ := resting_facts hrest
  obtain ⟨_, _, hk⟩ := (phase hr).kept hstage
  by_contra hlt
  obtain ⟨e, queue, hpop, _⟩ :=
    hk.next hled (hasRoom hr) hpicked hletters (Nat.lt_of_not_le hlt)
  obtain ⟨hentries, _, hdue⟩ := TimerQueue.popDue_eq_some hpop
  have hmem : e ∈ w.loop.queue.entries := hentries ▸ List.mem_cons_self
  exact Nat.not_lt_of_le hdue (hlate e hmem)

theorem Opened.replaysFirst (h : w.Opened jobs t rest) :
    ∃ later, w.ReplaysFirst jobs t rest later := by
  obtain ⟨handled, dispatched, hd⟩ := (phase hr).delivered
  have hps : w.course.postings = jobs.map (Posting.pending t) ++ rest := h.postings
  have hd' := hps ▸ hd
  obtain ⟨later, he, hlater⟩ := hd'.replayed_first
  exact ⟨later.map (· - jobs.length), { h with
    first := hd'.first_handed he
    others := hd'.others_handed he hlater
    once := hd'.others_once he hlater
    next := fun _ hs hlt => next_of_led hled hr hs hlt
    at_rest := at_rest_of_led hled hr }⟩

end Led

/-- The loop of a worker prepares at most once, whatever is asked of it, and from then on runs until
a shutdown. What it took over comes first. -/
theorem replays_first (hs : (create config 0).steps ls = some w) :
    ls.countP Label.isPrepare ≤ 1 ∧
    (ls.countP Label.isPrepare = 1 → w.loop.stage = .running ∨ w.interrupted = true) ∧
    ∃ t rest later, w.ReplaysFirst (takenOver ls) t rest later := by
  cases chapter_of_steps hs with
  | unopened hn h =>
    have hopened : w.Opened (takenOver ls) w.now [] ∧ w.course.Led (takenOver ls) w.now := by
      rw [takenOver_nil hn]
      exact ⟨⟨h.postings, h.acceptances.symm⟩, .nil _ _⟩
    refine ⟨hn ▸ Nat.zero_le 1, fun hone => ?_, _, _, hopened.1.replaysFirst hopened.2 ⟨ls, hs⟩⟩
    cases hn.symm.trans hone
  | opened hn hstage h =>
    obtain ⟨t, rest, hopened, hled⟩ := h
    exact ⟨Nat.le_of_eq hn, fun _ => hstage.imp_right Course.Over.interrupted, t, rest,
      hopened.replaysFirst hled ⟨ls, hs⟩⟩

end Worker

end Outbox
