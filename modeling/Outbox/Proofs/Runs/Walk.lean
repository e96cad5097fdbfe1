import Outbox.Proofs.Listeners.Roll

/-! # What a run goes through

A run is followed from its beginning to its end among all the other things that happen to a worker.
Its chronicle is what the journal says of it, and its walk the strides that it took, each in the
state in which it was taken; what is taken in other places leaves the chronicle alone. `Fate` says
of every number where its run stands. Main statement: `fate_of_steps`. -/
namespace Outbox
set_option autoImplicit false

namespace Run

/-- How a run begins: with the failure to find an id in its message, or ready to start. -/
inductive Fresh : Run → Prop
  | refused {r : Run} {m : MessageRef} {p : MessageUri.Problem} (hk : r.kind = .refused)
      (hm : r.job.message = some m) (hu : m.uri.messageId = .error p)
      (hp : r.phase = .failing (Failure.ofInvalid p.toInvalid)) : Fresh r
  | ready {r : Run} (hk : r.kind ≠ .refused) (hp : r.phase = .ready) : Fresh r

/-- Two stands of one run. -/
def Same (q r : Run) : Prop := ∃ p, q = { r with phase := p }

namespace Same
variable {q r s : Run}

theorem refl (r : Run) : r.Same r := ⟨r.phase, rfl⟩

theorem trans (h : q.Same r) (h' : r.Same s) : q.Same s := by
  obtain ⟨p, rfl⟩ := h
  obtain ⟨p', rfl⟩ := h'
  exact ⟨p, rfl⟩

theorem id_eq (h : q.Same r) : q.id = r.id := by
  obtain ⟨p, rfl⟩ := h
  rfl

end Same

end Run

namespace Worker
variable {config : Config} {w v : Worker} {l : Label} {n : Nat} {r : Run}

/-- What has happened in the run of this number, first things first. -/
def chronicle (w : Worker) (n : Nat) : List Event :=
  (w.journal.reverse.map JournalEntry.event).filter (·.run? = some n)

theorem mem_chronicle {e : Event} (he : e.run? = some n) :
    e ∈ w.chronicle n ↔ ∃ entry ∈ w.journal, entry.event = e := by
  simp [chronicle, he]

theorem chronicle_of_news {news : List JournalEntry} (hj : v.journal = news ++ w.journal) :
    v.chronicle n = w.chronicle n ++
      (news.reverse.map JournalEntry.event).filter (·.run? = some n) := by
  rw [chronicle, hj, List.reverse_append, List.map_append, List.filter_append, chronicle]

theorem chronicle_of_others {news : List JournalEntry} (hj : v.journal = news ++ w.journal)
    (hnews : ∀ e ∈ news, e.event.run? ≠ some n) : v.chronicle n = w.chronicle n := by
  rw [chronicle_of_news hj, List.filter_eq_nil_iff.mpr, List.append_nil]
  intro e he
  obtain ⟨entry, hentry, rfl⟩ := List.mem_map.mp he
  simpa using hnews entry (List.mem_reverse.mp hentry)

/-! ## One step -/

/-- A run takes a stride, or asks for a retry. -/
inductive Pace (w : Worker) (r : Run) : Reply → List Event → Phase → Prop
  | stride {reply : Reply} {notice : Option Notice} {events : List Event} {p : Phase}
      (hs : Stride w r reply notice events p) : Pace w r reply events p
  | requeue (hp : r.phase = .requeueing) : Pace w r .none [] .exiting

/-- What a step means for the runs and their chronicles. -/
inductive Passage (w v : Worker) : Label → Prop
  | apart {l : Label} (hr : v.runs = w.runs) (hc : ∀ n, v.chronicle n = w.chronicle n) :
      Passage w v l
  | begun {l : Label} (r : Run) (hf : r.Fresh) (hid : r.id = w.lastRun + 1)
      (hr : v.runs = w.runs ++ [r]) (hc : ∀ n, v.chronicle n = w.chronicle n) : Passage w v l
  | going (r : Run) (reply : Reply) (events : List Event) (p : Phase) (hr : r ∈ w.runs)
      (hs : Pace w r reply events p) (hv : v.runs = (w.setPhase r.id p).runs)
      (hc : ∀ n, v.chronicle n = w.chronicle n ++ if n = r.id then events else []) :
      Passage w v (.advance r.id reply)
  | ended (r : Run) (hr : r ∈ w.runs) (hp : r.phase = .exiting)
      (hv : v.runs = w.runs.filter (·.id != r.id))
      (hc : ∀ n, v.chronicle n = w.chronicle n ++ if n = r.id then [.ended r.id] else []) :
      Passage w v (.advance r.id .none)

theorem run?_of_isQuiet {e : Event} (he : e.isQuiet = true) : e.run? = none := by
  cases e <;> first | rfl | cases he

/-- What is noted has to do with no run. -/
def Aside (news : List JournalEntry) : Prop := ∀ e ∈ news, e.event.run? = none

theorem Murmurs.aside {news : List JournalEntry} (h : w.Murmurs news) : Aside news :=
  fun e he => run?_of_isQuiet (h e he).1

theorem chronicle_of_aside {news : List JournalEntry} (hj : v.journal = news ++ w.journal)
    (hnews : Aside news) (n : Nat) : v.chronicle n = w.chronicle n := by
  refine chronicle_of_others hj fun e he => ?_
  rw [hnews e he]
  exact nofun

theorem aside_farewell (w : Worker) : Aside w.farewell := by
  unfold farewell
  cases w.linked <;> cases w.installed <;> cases w.loop.mailbox.closed <;>
    simp [Aside, Event.run?]

theorem aside_replay (w : Worker) (pending : List Job) : Aside (w.replay pending) := by
  intro e he
  unfold replay at he
  split at he
  · cases he
  · obtain ⟨job, _, rfl⟩ := List.mem_map.mp (List.mem_reverse.mp he)
    rfl

/-- A submission has to do with no run. -/
theorem Looked.aside {s : Submission} (h : Looked w s v) :
    v.runs = w.runs ∧ ∃ news, v.journal = news ++ w.journal ∧ Aside news := by
  cases h with
  | quiet hv =>
    obtain ⟨_, _, _, _, _, _, _, news, _, _, hnews⟩ := hv
    exact ⟨rfl, news, rfl, hnews.aside⟩
  | accepted idle wake _ _ _ hwake =>
    refine ⟨rfl, wake ++ [_, _], (List.append_assoc wake [_, _] w.journal).symm, ?_⟩
    refine List.forall_mem_append.mpr ⟨fun e he => run?_of_isQuiet (hwake e he).1, ?_⟩
    exact List.forall_mem_cons.mpr ⟨rfl, List.forall_mem_singleton.mpr rfl⟩

namespace Passage

theorem of_aside (news : List JournalEntry) (hr : v.runs = w.runs)
    (hj : v.journal = news ++ w.journal) (hnews : Aside news) : Passage w v l :=
  .apart hr (chronicle_of_aside hj hnews)

theorem of_quiet {u : Worker} (h : Quiet u v) (hr : u.runs = w.runs) (hj : u.journal = w.journal) :
    Passage w v l := by
  obtain ⟨_, _, _, _, _, _, _, news, _, _, hnews⟩ := h
  exact .of_aside news hr (congrArg (news ++ ·) hj) hnews.aside

theorem of_begin {u : Worker} {job : Job} {kind : RunKind} {claim : Option MessageId}
    {custom : Option ListenerName} {phase : Phase} (hruns : u.runs = w.runs)
    (hlast : u.lastRun = w.lastRun) (hc : ∀ n, u.chronicle n = w.chronicle n)
    (hf : Run.Fresh { id := u.lastRun + 1, job, kind, claim, custom, phase }) :
    Passage w (u.begin job kind claim custom phase) l := by
  refine .begun _ hf (congrArg (· + 1) hlast) (congrArg (· ++ [_]) hruns) fun n => ?_
  have hj : (u.begin job kind claim custom phase).journal =
      [⟨u.now, .begun (u.lastRun + 1) job.id kind⟩] ++ u.journal := rfl
  exact (chronicle_of_aside hj (List.forall_mem_singleton.mpr rfl) n).trans (hc n)

theorem of_dispatched {u : Worker} {job : Job} {view : View} (hr : u.runs = w.runs)
    (hlast : u.lastRun = w.lastRun) (hj : u.journal = w.journal) (h : Dispatched u job view v) :
    Passage w v l := by
  have hc : ∀ n, u.chronicle n = w.chronicle n := fun n => by rw [chronicle, hj, chronicle]
  cases h with
  | closed reason | duplicate =>
    exact .of_aside [_] hr (congrArg ([_] ++ ·) hj) (List.forall_mem_singleton.mpr rfl)
  | refused p listeners custom _ hclaim =>
    obtain ⟨m, hm, hu⟩ := uri_of_claimFor_error hclaim
    exact .of_begin hr hlast hc (.refused rfl hm hu rfl)
  | inline claim s listeners custom =>
    exact .of_begin hr hlast hc (.ready nofun rfl)
  | detached claim s listeners custom =>
    obtain ⟨handles, tickets, book, ticket, handle, hl⟩ :=
      launch_spec (u.admitting s listeners) job claim custom
    have hledger := ledger_hold (u.admitting s listeners)
    have hquiet := quiet_hold (u.admitting s listeners)
    generalize (u.admitting s listeners).hold = held at hl hledger hquiet
    obtain ⟨_, _, _, _, _, _, _, news, _, _, hnews⟩ := hquiet
    rw [hl]
    refine .of_begin ((congrArg Ledger.runs hledger).trans hr)
      ((congrArg Ledger.lastRun hledger).trans hlast) (fun n => ?_) (.ready nofun rfl)
    exact chronicle_of_aside (congrArg (news ++ ·) hj) hnews.aside n
  | unstarted =>
    obtain ⟨_, hquiet, he⟩ := unstarted_spec (u.admitting u.inFlight u.listeners) job
    obtain ⟨now, _, _, _, _, _, _, news, _, _, hnews⟩ := hquiet
    rw [he]
    exact .of_aside (⟨now, .unstarted job.id⟩ :: news) hr
      (congrArg (⟨now, .unstarted job.id⟩ :: news ++ ·) hj)
      (List.forall_mem_cons.mpr ⟨rfl, hnews.aside⟩)

end Passage

/-- Beside a run's own events what is noted has to do with no run. -/
theorem chronicle_of_own (own news : List JournalEntry) {events : List Event}
    (hj : v.journal = own ++ (news ++ w.journal))
    (hown : own.reverse.map JournalEntry.event = events)
    (hrun : ∀ e ∈ events, e.run? = some r.id) (hnews : Aside news) (n : Nat) :
    v.chronicle n = w.chronicle n ++ if n = r.id then events else [] := by
  have hfirst : (news.reverse.map JournalEntry.event).filter (·.run? = some n) = [] := by
    refine List.filter_eq_nil_iff.mpr fun e he => ?_
    obtain ⟨entry, hentry, rfl⟩ := List.mem_map.mp he
    simp [hnews entry (List.mem_reverse.mp hentry)]
  have hthen : events.filter (·.run? = some n) = if n = r.id then events else [] := by
    split
    · rename_i he
      exact List.filter_eq_self.mpr fun e hmem => by simp [hrun e hmem, he]
    · rename_i hne
      refine List.filter_eq_nil_iff.mpr fun e hmem => ?_
      simp [hrun e hmem, Ne.symm hne]
  rw [← List.append_assoc] at hj
  rw [chronicle_of_news hj, List.reverse_append, List.map_append, List.filter_append, hfirst,
    List.nil_append, hown, hthen]

theorem passage_advance (hr : r ∈ w.runs) {reply : Reply} (h : w.advanceRun? r reply = some v) :
    Passage w v (.advance r.id reply) := by
  cases advanceRun_strode h with
  | @stride _ notice events p book hs =>
    have hown : ((events.map fun e => (⟨w.now, e⟩ : JournalEntry)).reverse.reverse).map
        JournalEntry.event = events := by
      rw [List.reverse_reverse, List.map_map]
      exact List.map_id _
    rw [noted_eq]
    exact .going r reply events p hr (.stride hs) rfl
      (chronicle_of_own _ [] rfl hown hs.run (List.forall_mem_nil _))
  | requeued hp hg =>
    obtain ⟨hruns, news, hj, hnews⟩ := (look_spec w
      { job := r.job, delay := w.config.retryDelay, attempts := w.config.submitAttempts }).aside
    refine .going r .none [] .exiting hr (.requeue hp) ?_
      (chronicle_of_own [] news hj rfl (List.forall_mem_nil _) hnews)
    exact congrArg (List.map _) hruns
  | ended hp =>
    have hledger := ledger_freed w r
    obtain ⟨tickets, keepAlive, hquiet⟩ := freed_spec w r
    rw [exit_eq]
    generalize w.freed r = freed at hledger hquiet
    obtain ⟨_, _, _, _, _, _, _, news, _, _, hnews⟩ := hquiet
    refine .ended r hr hp ?_ (chronicle_of_own [_] news rfl rfl
      (List.forall_mem_singleton.mpr rfl) hnews.aside)
    exact congrArg (List.filter _) (congrArg Ledger.runs hledger)

theorem step_passage (h : w.step l = some v) : Passage w v l := by
  cases step_footprint h with
  | quiet _ hv => exact .of_quiet hv rfl rfl
  | look s _ hv =>
    obtain ⟨hr, news, hj, hnews⟩ := hv.aside
    exact .of_aside news hr hj hnews
  | hold hv | release hv => exact .of_quiet hv rfl rfl
  | shutdown => exact .of_aside w.farewell rfl rfl (aside_farewell w)
  | cancel | start | join | enter | close =>
    exact .of_aside [] rfl rfl (List.forall_mem_nil _)
  | climb s rotation news _ _ _ hnews => exact .of_aside news rfl rfl hnews.aside
  | prepare pending mailbox => exact .of_aside _ rfl rfl (aside_replay w pending)
  | dispatch view job hp hd =>
    exact .of_dispatched (u := w.withLoop { w.loop with picked := none }) rfl rfl rfl hd
  | advance r reply hr ha => exact passage_advance hr ha

/-! ## The whole way -/

/-- How a run came from its beginning to where it stands, and what was noted on the way. Each of
its steps was taken in a state of the history. -/
inductive Walk (h : List Moment) (first : Run) : Run → List Event → Prop
  | begin : Walk h first first []
  | pace {m : Moment} {r : Run} {reply : Reply} {before events : List Event} {p : Phase}
      (hw : Walk h first r before) (hm : m ∈ h) (hl : m.label = .advance r.id reply)
      (hr : r ∈ m.source.runs) (hs : Pace m.source r reply events p) :
      Walk h first { r with phase := p } (before ++ events)

variable {h : List Moment} {first q : Run}

theorem Walk.snoc {events : List Event} (hw : Walk h first r events) (m : Moment) :
    Walk (h ++ [m]) first r events := by
  induction hw with
  | begin => exact .begin
  | pace _ hm hl hr hs ih => exact .pace ih (List.mem_append_left _ hm) hl hr hs

theorem Walk.same {events : List Event} (hw : Walk h first r events) : r.Same first := by
  induction hw with
  | begin => exact .refl first
  | pace _ _ _ _ _ ih => exact .trans ⟨_, rfl⟩ ih

/-- Whenever the run of this number was live it was this one. -/
def Seen (h : List Moment) (n : Nat) (first : Run) : Prop :=
  ∀ m ∈ h, ∀ q ∈ m.source.runs, q.id = n → q.Same first

theorem Seen.snoc (hs : Seen h n first) (hw : ∀ q ∈ w.runs, q.id = n → q.Same first) :
    Seen (h ++ [⟨w, l, v⟩]) n first :=
  List.forall_mem_append.mpr ⟨hs, List.forall_mem_singleton.mpr hw⟩

/-- Where the run of this number stands. -/
inductive Fate (h : List Moment) (w : Worker) (n : Nat) : Prop
  | unborn (hlive : ∀ q ∈ w.runs, q.id ≠ n) (hc : w.chronicle n = [])
      (hseen : ∀ first, Seen h n first)
  | live (first r : Run) (hf : first.Fresh) (hr : r ∈ w.runs) (hid : r.id = n)
      (hw : Walk h first r (w.chronicle n)) (hseen : Seen h n first)
  | ended (first r : Run) (events : List Event) (hf : first.Fresh) (hid : r.id = n)
      (hn : n ≤ w.lastRun) (hlive : ∀ q ∈ w.runs, q.id ≠ n) (hw : Walk h first r events)
      (hp : r.phase = .exiting) (hc : w.chronicle n = events ++ [.ended n])
      (hseen : Seen h n first)

namespace Fate

theorem id_of_mem_setPhase {id : Nat} {p : Phase} (hq : q ∈ (w.setPhase id p).runs) :
    ∃ r ∈ w.runs, r.id = q.id := by
  obtain ⟨r, hr, p', rfl⟩ := Ledger.mem_setPhase (g := w.ledger) hq
  exact ⟨r, hr, rfl⟩

theorem mem_setPhase_of_ne {id : Nat} {p : Phase} (hr : r ∈ w.runs) (hne : r.id ≠ id) :
    r ∈ (w.setPhase id p).runs :=
  List.mem_map.mpr ⟨r, hr, if_neg hne⟩

/-- In a run that is not live nothing happens, unless it begins. -/
theorem absent (hlive : ∀ q ∈ w.runs, q.id ≠ n) (hs : Passage w v l) :
    v.chronicle n = w.chronicle n ∧ ((∀ q ∈ v.runs, q.id ≠ n) ∨
      (n = w.lastRun + 1 ∧ ∃ r ∈ v.runs, r.id = n ∧ r.Fresh)) := by
  cases hs with
  | apart hr hc => exact ⟨hc n, .inl (hr ▸ hlive)⟩
  | begun r hf hid hr hc =>
    refine ⟨hc n, ?_⟩
    rw [hr]
    by_cases hn : r.id = n
    · exact .inr ⟨hn.symm.trans hid, r, List.mem_append_right _ List.mem_cons_self, hn, hf⟩
    · exact .inl (List.forall_mem_append.mpr ⟨hlive, List.forall_mem_singleton.mpr hn⟩)
  | going r reply events p hr _ hv hc =>
    rw [hc, if_neg (Ne.symm (hlive r hr)), List.append_nil, hv]
    refine ⟨rfl, .inl fun q hq => ?_⟩
    obtain ⟨s, hs, hid⟩ := id_of_mem_setPhase hq
    rw [← hid]
    exact hlive s hs
  | ended r hr _ hv hc =>
    rw [hc, if_neg (Ne.symm (hlive r hr)), List.append_nil, hv]
    exact ⟨rfl, .inl fun q hq => hlive q (List.mem_of_mem_filter hq)⟩

theorem step_live (ho : w.ledger.Owned) (hle : w.lastRun ≤ v.lastRun) (hs : Passage w v l)
    (hf : first.Fresh) (hr : r ∈ w.runs) (hw : Walk h first r (w.chronicle r.id)) (hseen : Seen h r.id first) :
    Fate (h ++ [⟨w, l, v⟩]) v r.id := by
  have hseen' : Seen (h ++ [⟨w, l, v⟩]) r.id first :=
    hseen.snoc fun q hq hid => ho.eq_of_id hq hr hid ▸ hw.same
  have hwalk := hw.snoc ⟨w, l, v⟩
  cases hs with
  | apart hruns hc =>
    exact .live first r hf (hruns ▸ hr) rfl (hc r.id ▸ hwalk) hseen'
  | begun r' _ _ hruns hc =>
    exact .live first r hf (hruns ▸ List.mem_append_left _ hr) rfl (hc r.id ▸ hwalk) hseen'
  | going r' reply events p hr' hpace hv hc =>
    by_cases hid : r.id = r'.id
    · obtain rfl := ho.eq_of_id hr hr' hid
      have hmem : { r with phase := p } ∈ v.runs := by
        rw [hv]
        exact List.mem_map.mpr ⟨r, hr, if_pos rfl⟩
      refine .live first { r with phase := p } hf hmem rfl ?_ hseen'
      rw [hc, if_pos rfl]
      exact .pace hwalk (List.mem_append_right _ List.mem_cons_self) rfl hr hpace
    · refine .live first r hf ?_ rfl ?_ hseen'
      · rw [hv]
        exact mem_setPhase_of_ne hr hid
      · rw [hc, if_neg hid, List.append_nil]
        exact hwalk
  | ended r' hr' hp hv hc =>
    by_cases hid : r.id = r'.id
    · obtain rfl := ho.eq_of_id hr hr' hid
      refine .ended first r (w.chronicle r.id) hf rfl (Nat.le_trans (ho.run_le r hr) hle) ?_ hwalk
        hp ?_ hseen'
      · intro q hq
        rw [hv] at hq
        exact bne_iff_ne.mp (List.mem_filter.mp hq).2
      · rw [hc, if_pos rfl]
    · refine .live first r hf ?_ rfl ?_ hseen'
      · rw [hv]
        exact List.mem_filter.mpr ⟨hr, bne_iff_ne.mpr hid⟩
      · rw [hc, if_neg hid, List.append_nil]
        exact hwalk

theorem step (hw : Reachable config w) (hl : w.step l = some v) (hf : Fate h w n) :
    Fate (h ++ [⟨w, l, v⟩]) v n := by
  have ho := owned hw
  have hs := step_passage hl
  have hle := (step_roll ho hl).lastRun_le
  cases hf with
  | unborn hlive hc hseen =>
    have hseen' : ∀ first, Seen (h ++ [⟨w, l, v⟩]) n first := fun first =>
      (hseen first).snoc fun q hq hid => absurd hid (hlive q hq)
    obtain ⟨hsame, hnone | ⟨_, r, hr, hid, hf⟩⟩ := absent hlive hs
    · exact .unborn hnone (hsame.trans hc) hseen'
    · refine .live r r hf hr hid ?_ (hseen' r)
      rw [hsame, hc]
      exact .begin
  | live first r hf hr hid hwalk hseen =>
    subst hid
    exact step_live ho hle hs hf hr hwalk hseen
  | ended first r events hf hid hn hlive hwalk hp hc hseen =>
    have hseen' : Seen (h ++ [⟨w, l, v⟩]) n first :=
      hseen.snoc fun q hq hid => absurd hid (hlive q hq)
    -- Numbers are not given twice, so no run of this number begins again.
    obtain ⟨hsame, hnone | ⟨hnew, _⟩⟩ := absent hlive hs
    · exact .ended first r events hf hid (Nat.le_trans hn hle) hnone (hwalk.snoc _) hp
        (hsame.trans hc) hseen'
    · omega

end Fate

theorem fate_of_steps {ls : List Label} (hs : (create config 0).steps ls = some w) (n : Nat) :
    Fate ((create config 0).history ls) w n := by
  refine history_induction (P := fun h w => Fate h w n) ?_ ?_ hs
  · exact .unborn (List.forall_mem_nil _) rfl fun _ => List.forall_mem_nil _
  · exact fun h u l v hu hf hl => hf.step hu hl

/-- A live run has walked from its beginning to where it stands. -/
theorem walk_of_live {ls : List Label} (hs : (create config 0).steps ls = some w)
    (hr : r ∈ w.runs) :
    ∃ first : Run, first.Fresh ∧
      Walk ((create config 0).history ls) first r (w.chronicle r.id) := by
  cases fate_of_steps hs r.id with
  | unborn hlive | ended _ _ _ _ _ _ hlive => exact absurd rfl (hlive r hr)
  | live first q hf hq hid hw =>
    obtain rfl := (owned ⟨ls, hs⟩).eq_of_id hq hr hid
    exact ⟨first, hf, hw⟩

/-- Whatever is noted of a run is noted on its walk, or it is its end. -/
theorem walk_of_event {ls : List Label} (hs : (create config 0).steps ls = some w) {e : Event}
    (he : e ∈ w.chronicle n) :
    e = .ended n ∨ ∃ (first r : Run) (es : List Event), first.Fresh ∧ r.id = n ∧ e ∈ es ∧
      Walk ((create config 0).history ls) first r es := by
  cases fate_of_steps hs n with
  | unborn _ hc =>
    rw [hc] at he
    cases he
  | live first r hf _ hid hw => exact .inr ⟨first, r, _, hf, hid, he, hw⟩
  | ended first r es hf hid _ _ hw _ hc =>
    rw [hc, List.mem_append, List.mem_singleton] at he
    exact he.symm.imp_right fun hmem => ⟨first, r, es, hf, hid, hmem, hw⟩

end Worker

end Outbox
