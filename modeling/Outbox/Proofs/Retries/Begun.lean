import Outbox.Proofs.Executors.Roster
import Outbox.Proofs.Replay.First
import Outbox.Proofs.Runs.Walk
import Outbox.Proofs.Shutdown.Startup
import Outbox.Proofs.Shutdown.Uploads

/-! # Runs that were begun

The journal says of every run that it was begun, for which job and how. Runs are numbered in the
order in which they begin, and an executor gets a handle that nobody had before it. Main statements:
`begun_numbered`, `begun_of_live` and `launched_fresh`. -/
namespace Outbox
set_option autoImplicit false

/-- What the journal says of a run that begins. -/
structure Beginning where
  run : Nat
  job : JobId
  kind : RunKind
  deriving DecidableEq

def Event.begun? : Event → Option Beginning
  | .begun run job kind => some ⟨run, job, kind⟩
  | _ => none

def Run.beginning (r : Run) : Beginning := ⟨r.id, r.job.id, r.kind⟩

/-- The handle of the executor that begins. -/
def Beginning.handle? (b : Beginning) : Option Handle :=
  match b.kind with
  | .detached _ handle => some handle
  | _ => none

theorem Event.begun?_of_isQuiet {e : Event} (h : e.isQuiet = true) : e.begun? = none := by
  cases e <;> first | rfl | cases h

theorem Event.begun?_of_byRun {e : Event} (h : e.byRun = true) : e.begun? = none := by
  cases e <;> first | rfl | cases h

namespace Worker
variable {config : Config} {w v u : Worker} {l : Label} {r : Run} {news more : List JournalEntry}

/-- The runs that were begun, first first. -/
def begun (w : Worker) : List Beginning := (w.journal.filterMap (·.event.begun?)).reverse

/-! ## What begins no run -/

def NoneBegun (news : List JournalEntry) : Prop := ∀ e ∈ news, e.event.begun? = none

theorem Murmurs.noneBegun (h : w.Murmurs news) : NoneBegun news :=
  fun e he => Event.begun?_of_isQuiet (h e he).1

theorem begun_of_news (hj : v.journal = news ++ w.journal) (hn : NoneBegun news) :
    v.begun = w.begun := by
  rw [begun, hj, List.filterMap_append, List.filterMap_eq_nil_iff.mpr hn, List.nil_append, begun]

theorem begun_of_cons {e : JournalEntry} (hj : v.journal = e :: w.journal)
    (he : e.event.begun? = none) : v.begun = w.begun := by
  have hone : NoneBegun [e] := List.forall_mem_singleton.mpr he
  exact begun_of_news (hj.trans List.singleton_append.symm) hone

theorem Quiet.begun (h : Quiet u v) : v.begun = u.begun := by
  obtain ⟨_, _, _, _, _, _, _, news, _, _, hnews⟩ := h
  exact begun_of_news rfl hnews.noneBegun

theorem Looked.begun {s : Submission} (h : Looked w s v) : v.begun = w.begun := by
  cases h with
  | quiet hv => exact hv.begun
  | accepted idle wake _ _ _ hwake =>
    refine begun_of_news (List.append_assoc wake [_, _] w.journal).symm ?_
    refine List.forall_mem_append.mpr ⟨fun e he => Event.begun?_of_isQuiet (hwake e he).1, ?_⟩
    exact List.forall_mem_cons.mpr ⟨rfl, List.forall_mem_singleton.mpr rfl⟩

theorem noneBegun_farewell (w : Worker) : NoneBegun w.farewell := by
  unfold farewell
  cases w.linked <;> cases w.installed <;> cases w.loop.mailbox.closed <;>
    simp [NoneBegun, Event.begun?]

theorem begun_silenced (w : Worker) : w.silenced.begun = w.begun :=
  begun_of_news rfl (noneBegun_farewell w)

theorem noneBegun_replay (w : Worker) (pending : List Job) : NoneBegun (w.replay pending) := by
  intro e he
  unfold replay at he
  split at he
  · cases he
  · obtain ⟨job, _, rfl⟩ := List.mem_map.mp (List.mem_reverse.mp he)
    rfl

theorem begun_unstarted (w : Worker) (job : Job) : (w.unstarted job).begun = w.begun := by
  obtain ⟨u, hquiet, he⟩ := unstarted_spec w job
  rw [he]
  exact (begun_of_cons rfl rfl).trans hquiet.begun

theorem begun_advance {reply : Reply} (h : w.advanceRun? r reply = some v) :
    v.begun = w.begun := by
  cases advanceRun_strode h with
  | @stride _ _ events p book hs =>
    rw [noted_eq]
    refine begun_of_news rfl fun e he => ?_
    obtain ⟨event, hmem, rfl⟩ := List.mem_map.mp (List.mem_reverse.mp he)
    exact Event.begun?_of_byRun (hs.byRun event hmem)
  | requeued =>
    exact (look_spec w
      { job := r.job, delay := w.config.retryDelay, attempts := w.config.submitAttempts }).begun
  | ended =>
    obtain ⟨tickets, keepAlive, hquiet⟩ := freed_spec w r
    rw [exit_eq]
    exact hquiet.begun

/-! ## One step -/

/-- A run begins on the loop, or beside it with a handle of its own, which its job observes. -/
inductive Equipped (w v : Worker) (r : Run) : Prop
  | onLoop (hk : r.kind.onLoop = true) (hl : r.job.lane = .inline ∨ r.kind = .refused)
      (hmade : v.handles.made = w.handles.made) : Equipped w v r
  | executor (ticket : Nat) (handle : Handle) (hk : r.kind = .detached ticket handle)
      (hserial : handle.serial = w.handles.made) (hmade : v.handles.made = w.handles.made + 1)
      (hfree : v.handles.canceled = w.handles.canceled)
      (hbook : (v.book.get r.job.id).execution = some handle) : Equipped w v r

/-- The runs are the old ones, or dispatch begins one. -/
inductive Begins (w v : Worker) : Label → Prop
  | none {l : Label} (hb : v.begun = w.begun) (hlast : v.lastRun = w.lastRun)
      (hruns : ∀ q ∈ v.runs, ∃ r ∈ w.runs, q.beginning = r.beginning)
      (hmade : w.handles.made ≤ v.handles.made) : Begins w v l
  | one (view : View) (r : Run) (hi : w.interrupted = false) (hid : r.id = w.lastRun + 1)
      (hb : v.begun = w.begun ++ [r.beginning]) (hlast : v.lastRun = r.id)
      (hruns : v.runs = w.runs ++ [r]) (he : Equipped w v r) : Begins w v (.dispatch view)

theorem begun_begin (w : Worker) (job : Job) (kind : RunKind) (claim : Option MessageId)
    (custom : Option ListenerName) (phase : Phase) :
    (w.begin job kind claim custom phase).begun = w.begun ++ [⟨w.lastRun + 1, job.id, kind⟩] :=
  List.reverse_cons

namespace Begins

theorem of_dispatched {job : Job} {view : View}
    (h : Dispatched (w.withLoop { w.loop with picked := .none }) job view v) :
    Begins w v (.dispatch view) := by
  have hsame : ∀ q ∈ w.runs, ∃ r ∈ w.runs, q.beginning = r.beginning := fun q hq => ⟨q, hq, rfl⟩
  cases h with
  | closed | duplicate =>
    exact .none (begun_of_cons rfl rfl) rfl hsame (Nat.le_refl _)
  | unstarted =>
    let admitted := (w.withLoop { w.loop with picked := .none }).admitting w.inFlight w.listeners
    have hledger := ledger_unstarted admitted job
    have hruns : (admitted.unstarted job).runs = w.runs := congrArg Ledger.runs hledger
    have hmade : (admitted.unstarted job).handles.made = w.handles.made + 1 :=
      congrArg (·.handles.made) (roster_unstarted admitted job)
    exact .none (begun_unstarted admitted job) (congrArg Ledger.lastRun hledger)
      (fun q hq => ⟨q, hruns ▸ hq, rfl⟩) (Nat.le.intro hmade.symm)
  | refused p listeners custom ho hc =>
    exact .one view _ (not_interrupted_of_isOpen ho) rfl (begun_begin _ _ _ _ _ _) rfl rfl
      (.onLoop rfl (.inr rfl) rfl)
  | inline claim s listeners custom ho hc hl =>
    exact .one view _ (not_interrupted_of_isOpen ho) rfl (begun_begin _ _ _ _ _ _) rfl rfl
      (.onLoop rfl (.inl hl) rfl)
  | detached claim s listeners custom ho hc hl =>
    let admitted := (w.withLoop { w.loop with picked := .none }).admitting s listeners
    have hledger := ledger_hold admitted
    have hlast : admitted.hold.lastRun = w.lastRun := congrArg Ledger.lastRun hledger
    have hruns : admitted.hold.runs = w.runs := congrArg Ledger.runs hledger
    have hbegun : admitted.hold.begun = w.begun := (quiet_hold admitted).begun
    have hhandles : admitted.hold.handles = w.handles := by
      rw [hold, notify_eq]
      rfl
    refine .one view _ (not_interrupted_of_isOpen ho) (congrArg (· + 1) hlast) ?_ rfl
      (congrArg (· ++ [_]) hruns) (.executor _ _ rfl (congrArg Handles.made hhandles) ?_ ?_ ?_)
    · exact (begun_begin _ _ _ _ _ _).trans (congrArg (· ++ [_]) hbegun)
    · exact congrArg (fun hs : Handles => hs.made + 1) hhandles
    · have hcanceled : admitted.hold.handles.canceled = w.handles.canceled :=
        congrArg Handles.canceled hhandles
      exact hcanceled
    · exact congrArg JobState.execution (JobBook.get_set_self _ _ _)

theorem of_begun (ho : w.ledger.Owned) (hs : w.step l = some v) (hl : ∀ view, l ≠ .dispatch view)
    (hb : v.begun = w.begun) : Begins w v l := by
  have hledger := step_move hs
  have hroster := step_roster ho hs
  refine .none hb ?_ (fun q hq => ?_) ?_
  · generalize hg : v.ledger = g at hledger
    have hlast : g.lastRun = v.lastRun := congrArg Ledger.lastRun hg.symm
    rw [← hlast]
    cases hledger with
    | refuse view | proceed view => exact absurd rfl (hl view)
    | stay | reset | pick | drop | progress | leave => rfl
  · rcases hledger.origin hq with ⟨r, hr, p, rfl⟩ | ⟨⟨view, rfl⟩, _⟩
    · exact ⟨r, hr, rfl⟩
    · exact absurd rfl (hl view)
  · generalize hb : v.roster = b at hroster
    have hmade : b.handles.made = v.handles.made := congrArg (·.handles.made) hb.symm
    rw [← hmade]
    cases hroster with
    | seat view | skip view => exact absurd rfl (hl view)
    | clear => exact Nat.le_of_eq (Handles.made_cancelAll _ _).symm
    | stay | hold | release | cancel | vacate => exact Nat.le_refl _

end Begins

theorem step_begins (ho : w.ledger.Owned) (h : w.step l = some v) : Begins w v l := by
  have hrest : ∀ {l : Label}, l.mayRest = true ∨ l.isLook = true → ∀ view, l ≠ .dispatch view := by
    rintro l (hl | hl) view rfl <;> cases hl
  cases step_footprint h with
  | quiet hl hv => exact .of_begun ho h (hrest (.inl hl)) hv.begun
  | look s hl hv => exact .of_begun ho h (hrest (.inr hl)) hv.begun
  | hold hv | release hv => exact .of_begun ho h nofun hv.begun
  | shutdown => exact .of_begun ho h nofun (begun_silenced w)
  | cancel | start | join | enter | close => exact .of_begun ho h nofun rfl
  | climb s rotation news hl _ _ hnews =>
    exact .of_begun ho h (hrest (.inl hl)) (begun_of_news rfl hnews.noneBegun)
  | prepare pending mailbox =>
    exact .of_begun ho h nofun (begun_of_news rfl (noneBegun_replay w pending))
  | dispatch view job _ hd => exact .of_dispatched hd
  | advance r reply _ ha => exact .of_begun ho h nofun (begun_advance ha)

/-! ## All steps -/

/-- Runs are numbered from one on, in the order in which they begin. -/
theorem begun_numbered (h : Reachable config w) :
    w.begun.map Beginning.run = List.range' 1 w.lastRun := by
  refine h.induction (P := fun w => w.begun.map Beginning.run = List.range' 1 w.lastRun) rfl ?_
  intro w l v hw ih hs
  cases step_begins (owned hw) hs with
  | none hb hlast => rw [hb, hlast, ih]
  | one view r _ hid hb hlast =>
    rw [hb, hlast, List.map_append, ih, hid, List.range'_1_concat, Nat.add_comm 1]
    exact congrArg (fun n => _ ++ [n]) hid

theorem begun_nodup (h : Reachable config w) : (w.begun.map Beginning.run).Nodup := by
  rw [begun_numbered h]
  exact List.nodup_range'

/-- Every live run was begun, for its job and in its kind. -/
theorem begun_of_live (h : Reachable config w) (hr : r ∈ w.runs) : r.beginning ∈ w.begun := by
  refine h.induction (P := fun w => ∀ r ∈ w.runs, r.beginning ∈ w.begun)
    (List.forall_mem_nil _) ?_ r hr
  intro w l v hw ih hs q hq
  cases step_begins (owned hw) hs with
  | none hb _ hruns =>
    obtain ⟨r, hr, he⟩ := hruns q hq
    rw [hb, he]
    exact ih r hr
  | one view r _ _ hb _ hruns =>
    rw [hb]
    rw [hruns] at hq
    rcases List.mem_append.mp hq with hq | hq
    · exact List.mem_append_left _ (ih q hq)
    · exact List.mem_append_right _ (List.mem_singleton.mp hq ▸ List.mem_singleton_self _)

/-- The loop of a worker with a live run takes messages until a shutdown. -/
theorem open_of_live (h : Reachable config w) (hr : r ∈ w.runs) (hi : w.interrupted = false) :
    w.installed = true ∧ w.loop.mailbox.closed = false := by
  obtain ⟨e, he, hevent⟩ := List.mem_filterMap.mp (List.mem_reverse.mp (begun_of_live h hr))
  have hover : e.handover?.isSome = true := by
    unfold JournalEntry.handover?
    cases hb : e.event with
    | begun => rfl
    | _ =>
      rw [hb] at hevent
      cases hevent
  obtain ⟨d, hd⟩ := Option.isSome_iff_exists.mp hover
  have hmem : d ∈ w.handovers := List.mem_reverse.mpr (List.mem_filterMap.mpr ⟨e, he, hd⟩)
  have hposted : w.postings ≠ [] := by
    obtain ⟨_, dispatched, hdelivered⟩ := (phase h).delivered
    have hall : List.Forall₂ _ dispatched w.handovers := hdelivered.dispatched_posted
    cases hlist : w.handovers with
    | nil =>
      rw [hlist] at hmem
      cases hmem
    | cons first rest =>
      rw [hlist] at hall
      cases hall with
      | cons hfirst =>
        obtain ⟨p, _, hp, _⟩ := hfirst
        exact List.ne_nil_of_mem (List.mem_of_getElem? hp)
  have hrun : w.loop.stage = .running := by
    obtain ⟨ls, hs⟩ := h
    cases chapter_of_steps hs with
    | unopened _ hu => exact absurd hu.postings hposted
    | opened _ hsettled =>
      refine hsettled.resolve_right fun ho => ?_
      cases hi.symm.trans ho.interrupted
  refine ⟨(installed_iff_running h hi).1.mpr hrun, Bool.eq_false_iff.mpr fun hc => ?_⟩
  cases hrun.symm.trans (closed_exited h hc)

/-! ## Handles -/

/-- Handles are numbered too, and every executor had the next one. -/
theorem serial_lt (h : Reachable config w) :
    ∀ b ∈ w.begun, ∀ g, b.handle? = some g → g.serial < w.handles.made := by
  refine h.induction (P := fun w => ∀ b ∈ w.begun, ∀ g, b.handle? = some g →
    g.serial < w.handles.made) (List.forall_mem_nil _) ?_
  intro w l v hw ih hs b hb g hg
  cases step_begins (owned hw) hs with
  | none hsame _ _ hmade =>
    rw [hsame] at hb
    exact Nat.lt_of_lt_of_le (ih b hb g hg) hmade
  | one view r _ _ hnew _ _ he =>
    rw [hnew] at hb
    rcases List.mem_append.mp hb with hb | hb
    · have hlt := ih b hb g hg
      cases he with
      | onLoop _ _ hmade => omega
      | executor _ _ _ _ hmade => omega
    · obtain rfl := List.mem_singleton.mp hb
      unfold Beginning.handle? Run.beginning at hg
      cases he with
      | onLoop hk =>
        split at hg
        · rename_i hkind
          rw [show r.kind = _ from hkind] at hk
          cases hk
        · cases hg
      | executor ticket handle hk hserial hmade =>
        rw [hk] at hg
        cases hg
        omega

/-- No run that was begun before had this handle, it is not canceled, and the job observes it. -/
structure Moment.Attaches (m : Moment) (job : JobId) (handle : Handle) : Prop where
  fresh : ∀ b ∈ m.source.begun, ∀ g, b.handle? = some g → g.serial < handle.serial
  uncanceled : m.target.handles.isCanceled handle = false
  attached : (m.target.book.get job).execution = some handle

/-- Whatever is dispatched to an executor gets a new handle with it, however often it was before. -/
theorem launched_fresh (h : Reachable config w) (hs : w.step l = some v) (hr : r ∈ v.runs)
    (hid : r.id = w.lastRun + 1) (hl : r.job.lane = .detached) (hk : r.kind ≠ .refused) :
    ∃ ticket handle, r.kind = .detached ticket handle ∧
      Moment.Attaches ⟨w, l, v⟩ r.job.id handle := by
  have ho := owned h
  cases step_begins ho hs with
  | none _ _ hruns =>
    obtain ⟨q, hq, he⟩ := hruns r hr
    have hle := ho.run_le q hq
    have hsame : r.id = q.id := congrArg Beginning.run he
    change q.id ≤ w.lastRun at hle
    omega
  | one view q hi hq hb hlast hruns he =>
    have hnew : r = q := by
      rw [hruns] at hr
      rcases List.mem_append.mp hr with hr | hr
      · have hle : r.id ≤ w.lastRun := ho.run_le r hr
        omega
      · exact List.mem_singleton.mp hr
    subst hnew
    cases he with
    | onLoop _ hlane =>
      rcases hlane with hlane | hrefused
      · cases hl.symm.trans hlane
      · exact absurd hrefused hk
    | executor ticket handle hkind hserial _ hfree hbook =>
      refine ⟨ticket, handle, hkind, fun b hmem g hg => ?_, ?_, hbook⟩
      · rw [hserial]
        exact serial_lt h b hmem g hg
      · -- only handles that were made can be canceled, and this one was not
        refine Bool.eq_false_iff.mpr fun hc => ?_
        rw [Handles.isCanceled, hfree, List.contains_iff_mem] at hc
        have hlt := (roster_sound h).canceled_made _ hc
        change handle.serial < w.handles.made at hlt
        omega

end Worker

end Outbox
