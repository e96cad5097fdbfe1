import Outbox.Proofs.Runs.Broadcast

/-! # What a listener hears of a run

A listener that is registered from the beginning of a run to its end hears that it starts, then
what its job reports, in that order, and at last how it ended, each of it once. `Script` says for
every phase what such a listener has heard by then, between the deeds of the run, and `Protocol`
what it is in the end; the paths of a run, on the loop or on an executor, do not differ in it.
Main statement: `callbacks_follow_protocol`. -/
namespace Outbox
set_option autoImplicit false

/-- Followed from `p` on, for some answers of the surroundings, the plan reports `ps`, and `q` is
left of it. -/
inductive Plan.Makes (p : Plan) : List Progress → Plan → Prop
  | refl : Makes p [] p
  | report {ps : List Progress} {x : Progress} {rest : Plan} (h : Makes p ps (.report x rest)) :
      Makes p (ps ++ [x]) rest
  | poll {ps : List Progress} {rest : Bool → Plan} (canceled : Bool)
      (h : Makes p ps (.poll rest)) : Makes p ps (rest canceled)
  | send {ps : List Progress} {request : Request} {rest : Outcome → Plan} (answer : Outcome)
      (h : Makes p ps (.send request rest)) : Makes p ps (rest answer)

namespace Event

/-- What the listener hears, and what the run does beside telling and asking. -/
def concerns (l : ListenerName) : Event → Bool
  | .told _ l' _ => l' == l
  | .voted _ _ _ | .sent _ _ => false
  | _ => true

/-- That a job is done: its plan has returned so, the job is told, or a listener is. -/
def isClosing : Event → Bool
  | .returned _ (.ok _) | .finished _ _ | .told _ _ (.done _) => true
  | _ => false

end Event

namespace Worker

/-- The listener is registered whenever the run of this number is live. -/
def Attends (h : List Moment) (n : Nat) (l : ListenerName) : Prop :=
  ∀ m ∈ h, ∀ r ∈ m.source.runs, r.id = n → l ∈ m.source.audience r

namespace Moment

/-- The run of this number comes to start, and finds its handle canceled or not. -/
def Starts (m : Moment) (n : Nat) (canceled : Bool) : Prop :=
  ∃ r ∈ m.source.runs, r.id = n ∧ r.phase = .ready ∧ m.label = .advance r.id .none ∧
    m.source.runCanceled r = canceled

/-- The failure of the run of this number is dealt with, in silence or not. -/
def Fails (m : Moment) (n : Nat) (f : Failure) (hushed : Bool) : Prop :=
  ∃ r ∈ m.source.runs, r.id = n ∧ r.phase = .failing f ∧ m.label = .advance r.id .none ∧
    m.source.hushes r f = hushed

end Moment

section
variable (h : List Moment) (n : Nat) (kind : RunKind) (job : Job) (l : ListenerName)

/-- The run started, and its job has reported `ps` and has `plan` left to do. -/
def Ran (ps : List Progress) (plan : Plan) : Prop :=
  kind ≠ .refused ∧ (∃ m ∈ h, m.Starts n false) ∧ job.plan.Makes ps plan

/-- The listener hears that the run starts and what its job reports. -/
def opened (ps : List Progress) : List Event :=
  .told n l .starting :: ps.flatMap fun p => [.reported n p, .told n l (.progress p)]

/-- Why a run fails, and what has happened until then. -/
inductive Cause : List Event → Failure → Prop
  | refused {m : MessageRef} {p : MessageUri.Problem} (hk : kind = .refused)
      (hm : job.message = some m) (hu : m.uri.messageId = .error p) :
      Cause [] (Failure.ofInvalid p.toInvalid)
  | gaveUp {ps : List Progress} {f : Failure} (hr : Ran h n kind job ps (.finish (.error f))) :
      Cause (opened n l ps ++ [.returned n (.error f)]) f

/-- All that happens in a run until it gives back what it holds. -/
inductive Protocol : List Event → Prop
  | canceled (hk : kind ≠ .refused) (hc : ∃ m ∈ h, m.Starts n true) :
      Protocol [.abandoned n .interrupted]
  | done {ps : List Progress} {tx : TransactionId} (hr : Ran h n kind job ps (.finish (.ok tx))) :
      Protocol (opened n l ps ++
        [.returned n (.ok tx), .finished n job.id, .told n l (.done tx), .succeeded n])
  | failed {es : List Event} {f : Failure} (hc : Cause h n kind job l es f)
      (hf : ∃ m ∈ h, m.Fails n f false) : Protocol (es ++ [.failed n f, .told n l (.error f)])
  | abandoned {es : List Event} {f : Failure} (hc : Cause h n kind job l es f)
      (hf : ∃ m ∈ h, m.Fails n f true) : Protocol (es ++ [.abandoned n f])

/-- What the listener hears of a broadcast until only `rest` is left to be told. -/
def echo (x : Notice) (rest : List ListenerName) : List Event :=
  if l ∈ rest then [] else [.told n l x]

/-- What has happened in a run by the time that it is in a phase. -/
inductive Script : Phase → List Event → Prop
  | ready (hk : kind ≠ .refused) : Script .ready []
  | starting {rest : List ListenerName} (hr : Ran h n kind job [] job.plan) (hn : rest.Nodup) :
      Script (.starting rest) (echo n l .starting rest)
  | working {ps : List Progress} {plan : Plan} (hr : Ran h n kind job ps plan) :
      Script (.working plan) (opened n l ps)
  | reporting {ps : List Progress} {p : Progress} {rest : List ListenerName} {plan : Plan}
      (hr : Ran h n kind job (ps ++ [p]) plan) (hn : rest.Nodup) :
      Script (.reporting p rest plan)
        (opened n l ps ++ .reported n p :: echo n l (.progress p) rest)
  | sending {ps : List Progress} {rest : Outcome → Plan}
      (hr : ∀ o, Ran h n kind job ps (rest o)) : Script (.sending rest) (opened n l ps)
  | completing {ps : List Progress} {tx : TransactionId} {rest : List ListenerName}
      (hr : Ran h n kind job ps (.finish (.ok tx))) (hn : rest.Nodup) :
      Script (.completing tx rest) (opened n l ps ++ .returned n (.ok tx) ::
        .finished n job.id :: echo n l (.done tx) rest)
  | canceled (hk : kind ≠ .refused) (hc : ∃ m ∈ h, m.Starts n true) :
      Script (.failing .interrupted) []
  | failing {es : List Event} {f : Failure} (hc : Cause h n kind job l es f) :
      Script (.failing f) es
  | blaming {es : List Event} {f : Failure} {rest : List ListenerName} {vote : Bool}
      (hc : Cause h n kind job l es f) (hf : ∃ m ∈ h, m.Fails n f false) (hn : rest.Nodup) :
      Script (.blaming f rest vote) (es ++ .failed n f :: echo n l (.error f) rest)
  | voting {es : List Event} {l' : ListenerName} {f : Failure} {rest : List ListenerName}
      {vote : Bool} (hc : Cause h n kind job l es f) (hf : ∃ m ∈ h, m.Fails n f false)
      (hn : rest.Nodup) :
      Script (.voting l' f rest vote) (es ++ .failed n f :: echo n l (.error f) rest)
  | requeueing {es : List Event} (hp : Protocol h n kind job l es) : Script .requeueing es
  | exiting {es : List Event} (hp : Protocol h n kind job l es) : Script .exiting es

end

variable {config : Config} {h : List Moment} {w : Worker} {first r : Run} {n : Nat}
  {kind : RunKind} {job : Job} {l : ListenerName} {es : List Event}

namespace Ran
variable {ps : List Progress}

theorem report {p : Progress} {rest : Plan} (hr : Ran h n kind job ps (.report p rest)) :
    Ran h n kind job (ps ++ [p]) rest :=
  ⟨hr.1, hr.2.1, hr.2.2.report⟩

theorem poll {rest : Bool → Plan} (hr : Ran h n kind job ps (.poll rest)) (canceled : Bool) :
    Ran h n kind job ps (rest canceled) :=
  ⟨hr.1, hr.2.1, hr.2.2.poll canceled⟩

theorem send {request : Request} {rest : Outcome → Plan}
    (hr : Ran h n kind job ps (.send request rest)) (answer : Outcome) :
    Ran h n kind job ps (rest answer) :=
  ⟨hr.1, hr.2.1, hr.2.2.send answer⟩

end Ran

theorem echo_cons {x : Notice} {l' : ListenerName} {rest : List ListenerName}
    (hn : (l' :: rest).Nodup) :
    echo n l x (l' :: rest) ++ [.told n l' x].filter (Event.concerns l) = echo n l x rest := by
  obtain ⟨hfirst, _⟩ := List.nodup_cons.mp hn
  by_cases hl : l' = l
  · subst hl
    simp [echo, hfirst, Event.concerns]
  · have hmem : l ∈ l' :: rest ↔ l ∈ rest := by
      rw [List.mem_cons, or_iff_right (Ne.symm hl)]
    simp [echo, hmem, Event.concerns, hl]

theorem echo_nil (x : Notice) : echo n l x [] = [.told n l x] := rfl

theorem echo_of_mem {x : Notice} {rest : List ListenerName} (hl : l ∈ rest) :
    echo n l x rest = [] := if_pos hl

theorem opened_concat (ps : List Progress) (p : Progress) :
    opened n l (ps ++ [p]) = opened n l ps ++ [.reported n p, .told n l (.progress p)] := by
  simp [opened]

namespace Script

/-- A stride continues the script; where a broadcast begins, the listener is in the audience. -/
theorem stride {m : Moment} {reply : Reply} {notice : Option Notice} {events : List Event}
    {p : Phase} {t : List Event} (ht : Script h r.id r.kind r.job l r.phase t)
    (hm : m ∈ h) (hlabel : m.label = .advance r.id reply) (hr : r ∈ m.source.runs)
    (hs : Stride m.source r reply notice events p) (ha : l ∈ m.source.audience r)
    (hn : (m.source.audience r).Nodup) :
    Script h r.id r.kind r.job l p (t ++ events.filter (Event.concerns l)) := by
  -- The script speaks of the run's number, kind and job, which stay while its phase changes.
  obtain ⟨n, job, kind, claim, custom, phase⟩ := r
  cases hs with
  | cancel hp hc =>
    cases (hp : phase = _)
    cases ht with
    | ready hk => exact .canceled hk ⟨m, hm, _, hr, rfl, rfl, hlabel, hc⟩
  | start hp hc =>
    cases (hp : phase = _)
    cases ht with
    | ready hk =>
      have hran : Ran h n kind job [] job.plan :=
        ⟨hk, ⟨m, hm, _, hr, rfl, rfl, hlabel, hc⟩, .refl⟩
      have hscript := Script.starting (l := l) hran hn
      rwa [echo_of_mem ha] at hscript
  | tellStart hp =>
    cases (hp : phase = _)
    cases ht with
    | starting hran hnodup =>
      rw [echo_cons hnodup]
      exact .starting hran hnodup.of_cons
  | execute hp =>
    cases (hp : phase = _)
    cases ht with
    | starting hran => exact .working hran
  | report hp =>
    cases (hp : phase = _)
    cases ht with
    | working hran =>
      have hscript := Script.reporting (l := l) hran.report hn
      rwa [echo_of_mem ha] at hscript
  | tellProgress hp =>
    cases (hp : phase = _)
    cases ht with
    | reporting hran hnodup =>
      rw [List.append_assoc, List.cons_append, echo_cons hnodup]
      exact .reporting hran hnodup.of_cons
  | resume hp =>
    cases (hp : phase = _)
    cases ht with
    | reporting hran =>
      rw [List.filter_nil, List.append_nil, echo_nil, ← opened_concat]
      exact .working hran
  | poll hp =>
    cases (hp : phase = _)
    cases ht with
    | working hran =>
      rw [List.filter_nil, List.append_nil]
      exact .working (hran.poll _)
  | send hp =>
    cases (hp : phase = _)
    cases ht with
    | working hran =>
      rw [List.filter_cons_of_neg Bool.false_ne_true, List.filter_nil, List.append_nil]
      exact .sending hran.send
  | answer o hp =>
    cases (hp : phase = _)
    cases ht with
    | sending hran =>
      rw [List.filter_nil, List.append_nil]
      exact .working (hran o)
  | finish hp =>
    cases (hp : phase = _)
    cases ht with
    | working hran =>
      have hscript := Script.completing (l := l) hran hn
      rwa [echo_of_mem ha] at hscript
  | giveUp hp =>
    cases (hp : phase = _)
    cases ht with
    | working hran => exact .failing (.gaveUp hran)
  | tellDone hp =>
    cases (hp : phase = _)
    cases ht with
    | completing hran hnodup =>
      rw [List.append_assoc, List.cons_append, List.cons_append, echo_cons hnodup]
      exact .completing hran hnodup.of_cons
  | succeed hp =>
    cases (hp : phase = _)
    cases ht with
    | completing hran =>
      rw [echo_nil, List.append_assoc]
      exact .exiting (.done hran)
  | abandon hp hh =>
    cases (hp : phase = _)
    cases ht with
    | canceled hk hc => exact .exiting (.canceled hk hc)
    | failing hc => exact .exiting (.abandoned hc ⟨m, hm, _, hr, rfl, rfl, hlabel, hh⟩)
  | blame hp hh =>
    cases (hp : phase = _)
    cases ht with
    | canceled => exact absurd (Bool.or_true _) (ne_true_of_eq_false hh)
    | failing hc =>
      have hscript : Script h n kind job l (.blaming _ _ false) _ :=
        .blaming hc ⟨m, hm, _, hr, rfl, rfl, hlabel, hh⟩ hn
      rwa [echo_of_mem ha] at hscript
  | tellError hp =>
    cases (hp : phase = _)
    cases ht with
    | blaming hc hf hnodup =>
      rw [List.append_assoc, List.cons_append, echo_cons hnodup]
      exact .voting hc hf hnodup.of_cons
  | vote v hp =>
    cases (hp : phase = _)
    cases ht with
    | voting hc hf hnodup =>
      rw [List.filter_cons_of_neg Bool.false_ne_true, List.filter_nil, List.append_nil]
      exact .blaming hc hf hnodup
  | @count f vote hp =>
    cases (hp : phase = _)
    cases ht with
    | blaming hc hf =>
      rw [List.filter_nil, List.append_nil, echo_nil]
      cases vote with
      | true => exact .requeueing (.failed hc hf)
      | false => exact .exiting (.failed hc hf)

end Script

/-- What the listener hears in the run of this number, and what the run does. -/
def transcript (w : Worker) (n : Nat) (l : ListenerName) : List Event :=
  (w.chronicle n).filter (Event.concerns l)

theorem Walk.script (hw : Walk h first r es) (hf : first.Fresh) (hs : Attends h first.id l)
    (hn : ∀ m ∈ h, ∀ r, (m.source.audience r).Nodup) :
    Script h r.id r.kind r.job l r.phase (es.filter (Event.concerns l)) := by
  induction hw with
  | begin =>
    cases hf with
    | refused hk hm hu hp =>
      rw [hp]
      exact .failing (.refused hk hm hu)
    | ready hk hp =>
      rw [hp]
      exact .ready hk
  | @pace m r reply before events p hw hm hl hr hp ih =>
    have ha := hs m hm r hr hw.same.id_eq
    rw [List.filter_append]
    cases hp with
    | stride hstride => exact ih.stride hm hl hr hstride ha (hn m hm r)
    | requeue hphase =>
      rw [hphase] at ih
      cases ih with
      | requeueing hprotocol =>
        rw [List.filter_nil, List.append_nil]
        exact .exiting hprotocol

/-! ## Closings -/

/-- The returning, finishing and telling of a job that is done. -/
def closings (es : List Event) : List Event := es.filter Event.isClosing

/-- The job's plan returned, then the job was told that it is done, then these listeners. -/
def closing (r : Run) (tx : TransactionId) (told : List ListenerName) : List Event :=
  .returned r.id (.ok tx) :: .finished r.id r.job.id :: told.map (.told r.id · (.done tx))

/-- Whether and how far a job that is done has been closed. -/
inductive Closed (r : Run) (es : List Event) : Prop
  | unclosed (hp : ∀ tx rest, r.phase ≠ .completing tx rest) (hc : closings es = []) : Closed r es
  | closed (tx : TransactionId) (told : List ListenerName)
      (hp : r.phase = .exiting ∨ ∃ rest, r.phase = .completing tx rest)
      (hc : closings es = closing r tx told) : Closed r es

theorem closings_append (es fs : List Event) : closings (es ++ fs) = closings es ++ closings fs :=
  List.filter_append es fs

namespace Closed
variable {tx : TransactionId} {rest : List ListenerName}

theorem closings_eq_nil (h : Closed r es) (hc : ∀ tx rest, r.phase ≠ .completing tx rest)
    (he : r.phase ≠ .exiting) : closings es = [] := by
  cases h with
  | unclosed _ hn => exact hn
  | closed tx _ hp =>
    rcases hp with hp | ⟨rest, hp⟩
    · exact absurd hp he
    · exact absurd hp (hc tx rest)

theorem of_completing (h : Closed r es) (hphase : r.phase = .completing tx rest) :
    ∃ told, closings es = closing r tx told := by
  cases h with
  | unclosed hp => exact absurd hphase (hp tx rest)
  | closed tx' told hp hc =>
    rcases hp with hp | ⟨rest', hp⟩
    · cases hp.symm.trans hphase
    · cases hp.symm.trans hphase
      exact ⟨told, hc⟩

/-- Before the job is done, what is no closing leaves it so. -/
theorem carry {p : Phase} {events : List Event} (h : Closed r es) (hn : closings events = [])
    (hc : ∀ tx rest, r.phase ≠ .completing tx rest) (he : r.phase ≠ .exiting)
    (hp : ∀ tx rest, p ≠ .completing tx rest) :
    Closed { r with phase := p } (es ++ events) := by
  refine .unclosed hp ?_
  rw [closings_append, h.closings_eq_nil hc he, hn, List.append_nil]

end Closed

theorem Walk.closed (hw : Walk h first r es) (hf : first.Fresh) : Closed r es := by
  induction hw with
  | begin =>
    cases hf with
    | refused _ _ _ hp | ready _ hp => exact .unclosed (hp ▸ nofun) rfl
  | @pace m r reply before events p hw hm hl hr hs ih =>
    cases hs with
    | requeue hp => exact ih.carry rfl (hp ▸ nofun) (hp ▸ nofun) nofun
    | stride hs =>
      cases hs with
      | @finish tx hp =>
        refine .closed tx [] (.inr ⟨_, rfl⟩) ?_
        rw [closings_append, ih.closings_eq_nil (hp ▸ nofun) (hp ▸ nofun)]
        rfl
      | @tellDone tx l ls hp =>
        obtain ⟨told, hc⟩ := ih.of_completing hp
        refine .closed tx (told ++ [l]) (.inr ⟨ls, rfl⟩) ?_
        rw [closings_append, hc, closing, closing, List.map_append]
        rfl
      | @succeed tx hp =>
        obtain ⟨told, hc⟩ := ih.of_completing hp
        refine .closed tx told (.inl rfl) ?_
        rw [closings_append, hc]
        exact List.append_nil _
      | @count f vote hp =>
        refine ih.carry rfl (hp ▸ nofun) (hp ▸ nofun) ?_
        cases vote <;> exact nofun
      | @answer rest o hp => exact ih.carry rfl (hp ▸ nofun) (hp ▸ nofun) nofun
      | @vote v l f ls vote hp => exact ih.carry rfl (hp ▸ nofun) (hp ▸ nofun) nofun
      | _ hp => exact ih.carry rfl (hp ▸ nofun) (hp ▸ nofun) nofun

theorem audience_nodup {ls : List Label} {m : Moment} (hm : m ∈ (create config 0).history ls)
    (r : Run) : (m.source.audience r).Nodup := by
  obtain ⟨ms, _, hs, _⟩ := prefix_of_mem_history hm
  exact (roll_sound ⟨ms, hs⟩).listeners r.job.lane

/-- The run is live, or was. -/
def Lived (h : List Moment) (w : Worker) (r : Run) : Prop :=
  r ∈ w.runs ∨ ∃ m ∈ h, r ∈ m.source.runs

theorem Lived.same (hr : Lived h w r) (hseen : Seen h r.id first)
    (hlive : ∀ q ∈ w.runs, q.id = r.id → q.Same first) : r.Same first := by
  rcases hr with hr | ⟨m, hm, hr⟩
  · exact hlive r hr rfl
  · exact hseen m hm r hr rfl

/-- A listener that is registered whenever a run is live hears of it that it starts, then what its
job reports, in that order, and then that it is done, or its failure unless that is hushed, each of
it once and nothing else: nothing at all if the run was canceled before it started, and at most the
failure if its message has no id. It has heard all of it when the run is over, and until then what
belongs to the run's phase. The job itself is told that it is done once, before every listener, if
its plan returned so, and never otherwise. -/
theorem callbacks_follow_protocol {ls : List Label} (hs : (create config 0).steps ls = some w)
    (hr : Lived ((create config 0).history ls) w r) :
    (∀ l, Attends ((create config 0).history ls) r.id l →
      (∀ q ∈ w.runs, q.id = r.id →
        Script ((create config 0).history ls) r.id r.kind r.job l q.phase
          (w.transcript r.id l)) ∧
      ((∀ q ∈ w.runs, q.id ≠ r.id) →
        ∃ t, Protocol ((create config 0).history ls) r.id r.kind r.job l t ∧
          w.transcript r.id l = t ++ [.ended r.id])) ∧
    (closings (w.chronicle r.id) = [] ∨
      ∃ tx told, closings (w.chronicle r.id) = closing r tx told) := by
  have hn : ∀ m ∈ (create config 0).history ls, ∀ r, (m.source.audience r).Nodup :=
    fun m hm r => audience_nodup hm r
  cases fate_of_steps hs r.id with
  | unborn hlive _ hseen =>
    -- Nobody has seen a run of this number, so any run at all would be the one that was seen.
    have hsame := hr.same (hseen { r with id := r.id + 1 }) fun q hq hid => absurd hid (hlive q hq)
    exact absurd hsame.id_eq (Nat.ne_of_lt (Nat.lt_succ_self r.id))
  | live first q hf hq hid hw hseen =>
    have honly : ∀ q' ∈ w.runs, q'.id = r.id → q' = q := fun q' hq' hid' =>
      (owned ⟨ls, hs⟩).eq_of_id hq' hq (hid'.trans hid.symm)
    obtain ⟨p, rfl⟩ := hr.same hseen fun q' hq' hid' => honly q' hq' hid' ▸ hw.same
    obtain ⟨p', rfl⟩ := hw.same
    refine ⟨fun l hl => ⟨fun q' hq' hid' => ?_, fun hgone => absurd hid (hgone _ hq)⟩, ?_⟩
    · obtain rfl := honly q' hq' hid'
      exact hw.script hf hl hn
    · cases hw.closed hf with
      | unclosed _ hc => exact .inl hc
      | closed tx told _ hc => exact .inr ⟨tx, told, hc⟩
  | ended first q es hf hid _ hlive hw hp hc hseen =>
    obtain ⟨p, rfl⟩ := hr.same hseen fun q hq hid => absurd hid (hlive q hq)
    obtain ⟨p', rfl⟩ := hw.same
    refine ⟨fun l hl => ⟨fun q hq hid => absurd hid (hlive q hq), fun _ => ?_⟩, ?_⟩
    · have hscript := hw.script hf hl hn
      rw [hp] at hscript
      cases hscript with
      | exiting hprotocol =>
        refine ⟨_, hprotocol, ?_⟩
        rw [transcript, hc, List.filter_append]
        rfl
    · rw [hc, closings_append]
      cases hw.closed hf with
      | unclosed _ hc => exact .inl (by rw [hc]; rfl)
      | closed tx told _ hc => exact .inr ⟨tx, told, by rw [hc]; exact List.append_nil _⟩

def measured (n : Nat) (outcome : Outcome) : Job where
  id := .ofNat n
  isAsync := true
  plan := .report (.upload 9) (.finish outcome)

/-- A listener is there before three executors start and after they have ended. The first does its
job, the second is canceled before it starts, and the third while its job fails. Nobody shuts the
worker down. -/
def escorted : List Label :=
  opening ++ [.addListener .detached "log"] ++ launching (measured 1 (.ok ⟨"sent"⟩)) ++
    launching (measured 2 (.ok ⟨"sent"⟩)) ++ launching (measured 3 (.error .disconnected)) ++
    advancing 1 10 ++ [.cancel ⟨1, "any"⟩] ++ advancing 2 3 ++ advancing 3 6 ++
    [.cancel ⟨2, "any"⟩] ++ advancing 3 3

theorem escort_hears_all :
    ∃ w m, (create {} 0).steps escorted = some w ∧ w.interrupted = false ∧
      m ∈ (create {} 0).history escorted ∧ m.source.runs.map Run.id = [1, 2, 3] ∧
      (∀ r ∈ m.source.runs, Attends ((create {} 0).history escorted) r.id "log" ∧
        ∃ t, Protocol ((create {} 0).history escorted) r.id r.kind r.job "log" t ∧
          w.transcript r.id "log" = t ++ [.ended r.id]) ∧
      w.transcript 1 "log" = opened 1 "log" [.upload 9] ++ [.returned 1 (.ok ⟨"sent"⟩),
        .finished 1 (.ofNat 1), .told 1 "log" (.done ⟨"sent"⟩), .succeeded 1, .ended 1] ∧
      w.transcript 2 "log" = [.abandoned 2 .interrupted, .ended 2] ∧
      w.transcript 3 "log" = opened 3 "log" [.upload 9] ++ [.returned 3 (.error .disconnected),
        .abandoned 3 .disconnected, .ended 3] := by
  have h : ∃ w m, (create {} 0).steps escorted = some w ∧ w.interrupted = false ∧ w.runs = [] ∧
      ((create {} 0).history escorted)[19]? = some m ∧ m.source.runs.map Run.id = [1, 2, 3] ∧
      ((create {} 0).history escorted).all (fun m => m.source.runs.all fun q =>
        (m.source.audience q).contains "log") = true ∧
      w.transcript 1 "log" = opened 1 "log" [.upload 9] ++ [.returned 1 (.ok ⟨"sent"⟩),
        .finished 1 (.ofNat 1), .told 1 "log" (.done ⟨"sent"⟩), .succeeded 1, .ended 1] ∧
      w.transcript 2 "log" = [.abandoned 2 .interrupted, .ended 2] ∧
      w.transcript 3 "log" = opened 3 "log" [.upload 9] ++ [.returned 3 (.error .disconnected),
        .abandoned 3 .disconnected, .ended 3] :=
    ⟨_, _, rfl, rfl, rfl, rfl, rfl, rfl, rfl, rfl, rfl⟩
  obtain ⟨w, m, hs, hi, hruns, hm, hids, hsteady, hheard⟩ := h
  have hmem := List.mem_of_getElem? hm
  refine ⟨w, m, hs, hi, hmem, hids, fun r hr => ?_, hheard⟩
  have hthere : Attends ((create {} 0).history escorted) r.id "log" := by
    intro m hm q hq _
    have hq := List.all_eq_true.mp (List.all_eq_true.mp hsteady m hm) q hq
    exact List.contains_iff_mem.mp hq
  have hgone : ∀ q ∈ w.runs, q.id ≠ r.id := by
    rw [hruns]
    exact List.forall_mem_nil _
  have hprotocol := callbacks_follow_protocol hs (.inr ⟨m, hmem, hr⟩)
  exact ⟨hthere, (hprotocol.1 "log" hthere).2 hgone⟩

end Worker

end Outbox
