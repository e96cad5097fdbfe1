import Outbox.Proofs.Runs.Walk

/-! # Whom a run tells

A run tells what it announces to its audience, those who are registered at that moment, one after
the other. After a failure each of them votes, and the run asks for a retry if one of them voted for
it. Main statements: `Walk.heralded` and `Walk.poll`. -/
namespace Outbox
set_option autoImplicit false

/-- Who is still to be told of what. -/
def Phase.rest : Phase → List (ListenerName × Notice)
  | .starting rest => rest.map (·, .starting)
  | .reporting p rest _ => rest.map (·, .progress p)
  | .completing tx rest => rest.map (·, .done tx)
  | .blaming f rest _ | .voting _ f rest _ => rest.map (·, .error f)
  | _ => []

/-- The run has recorded an outcome. -/
def Phase.isSettled : Phase → Bool
  | .blaming _ _ _ | .voting _ _ _ _ | .requeueing | .exiting => true
  | _ => false

def Event.ballot? : Event → Option (ListenerName × Bool)
  | .voted _ l v => some (l, v)
  | _ => none

namespace Worker
variable {h : List Moment} {first r : Run} {es : List Event} {n : Nat}

/-- In this moment a run of this number announces the notice to its audience, and the listener
is among them. -/
def Moment.Heralds (m : Moment) (n : Nat) (l : ListenerName) (notice : Notice) : Prop :=
  ∃ r ∈ m.source.runs, r.id = n ∧ m.label = .advance r.id .none ∧ l ∈ m.source.audience r ∧
    ∃ events p, Stride m.source r .none (some notice) events p

theorem Stride.tells {w : Worker} {reply : Reply} {notice : Option Notice} {events : List Event}
    {p : Phase} (hs : Stride w r reply notice events p) :
    (∀ l x, (l, x) ∈ p.rest →
      (l, x) ∈ r.phase.rest ∨ (reply = .none ∧ notice = some x ∧ l ∈ w.audience r)) ∧
    ∀ l x, .told r.id l x ∈ events → (l, x) ∈ r.phase.rest := by
  cases hs with
  | @count f vote hp => cases vote <;> simp [Phase.rest]
  | _ hp => simp_all [Phase.rest]

/-- Whoever is told or still to be told of something was in the audience when it was announced. -/
theorem Walk.heralded (hw : Walk h first r es) (hf : first.Fresh) :
    (∀ l x, (l, x) ∈ r.phase.rest → ∃ m ∈ h, m.Heralds r.id l x) ∧
      ∀ l x, .told r.id l x ∈ es → ∃ m ∈ h, m.Heralds r.id l x := by
  induction hw with
  | begin =>
    refine ⟨fun l x hl => ?_, fun l x hl => by cases hl⟩
    cases hf with
    | refused _ _ _ hp | ready _ hp =>
      rw [hp] at hl
      cases hl
  | @pace m r reply before events p hw hm hl hr hs ih =>
    obtain ⟨hrest, htold⟩ := ih
    cases hs with
    | requeue => exact ⟨fun l x hx => (List.not_mem_nil hx).elim, by rwa [List.append_nil]⟩
    | stride hs =>
      obtain ⟨hrest', htold'⟩ := hs.tells
      refine ⟨fun l x hx => ?_, fun l x hx => ?_⟩
      · rcases hrest' l x hx with hold | ⟨rfl, rfl, hmem⟩
        · exact hrest l x hold
        · exact ⟨m, hm, r, hr, rfl, hl, hmem, events, p, hs⟩
      · rcases List.mem_append.mp hx with hx | hx
        · exact htold l x hx
        · exact hrest l x (htold' l x hx)

/-! ## Votes -/

/-- Who has voted on a retry of the run, and how, first vote first. -/
def ballots (es : List Event) : List (ListenerName × Bool) := es.filterMap Event.ballot?

theorem ballots_append (es fs : List Event) : ballots (es ++ fs) = ballots es ++ ballots fs :=
  List.filterMap_append

/-- The run reports a failure, and these are the listeners that it asks for their votes. -/
def Moment.Asks (m : Moment) (n : Nat) (f : Failure) (voters : List ListenerName) : Prop :=
  ∃ r ∈ m.source.runs, r.id = n ∧ r.phase = .failing f ∧ m.label = .advance r.id .none ∧
    m.source.hushes r f = false ∧ voters = m.source.audience r

/-- How far the votes on a retry are counted. -/
inductive Poll (h : List Moment) (es : List Event) (r : Run) : Prop
  | early (hp : r.phase.isSettled = false) (hn : ballots es = []) : Poll h es r
  | asking (f : Failure) (rest : List ListenerName) (vote : Bool)
      (hp : r.phase = .blaming f rest vote)
      (ha : ∃ m ∈ h, m.Asks r.id f ((ballots es).map Prod.fst ++ rest))
      (hv : vote = (ballots es).any Prod.snd) : Poll h es r
  | waiting (l : ListenerName) (f : Failure) (rest : List ListenerName) (vote : Bool)
      (hp : r.phase = .voting l f rest vote)
      (ha : ∃ m ∈ h, m.Asks r.id f ((ballots es).map Prod.fst ++ l :: rest))
      (hv : vote = (ballots es).any Prod.snd) : Poll h es r
  | requeueing (hp : r.phase = .requeueing)
      (ha : ∃ f, ∃ m ∈ h, m.Asks r.id f ((ballots es).map Prod.fst))
      (hv : (ballots es).any Prod.snd = true) : Poll h es r
  | exiting (hp : r.phase = .exiting) : Poll h es r

namespace Poll
variable {l : ListenerName} {f : Failure} {rest : List ListenerName} {vote : Bool}

theorem of_blaming (hpoll : Poll h es r) (hp : r.phase = .blaming f rest vote) :
    (∃ m ∈ h, m.Asks r.id f ((ballots es).map Prod.fst ++ rest)) ∧
      vote = (ballots es).any Prod.snd := by
  cases hpoll with
  | asking f' rest' vote' hp' ha hv =>
    cases hp.symm.trans hp'
    exact ⟨ha, hv⟩
  | early hp' => cases hp ▸ hp'
  | waiting _ _ _ _ hp' | requeueing hp' | exiting hp' => cases hp.symm.trans hp'

theorem of_voting (hpoll : Poll h es r) (hp : r.phase = .voting l f rest vote) :
    (∃ m ∈ h, m.Asks r.id f ((ballots es).map Prod.fst ++ l :: rest)) ∧
      vote = (ballots es).any Prod.snd := by
  cases hpoll with
  | waiting l' f' rest' vote' hp' ha hv =>
    cases hp.symm.trans hp'
    exact ⟨ha, hv⟩
  | early hp' => cases hp ▸ hp'
  | asking _ _ _ hp' | requeueing hp' | exiting hp' => cases hp.symm.trans hp'

theorem ballots_eq_nil (hpoll : Poll h es r) (hp : r.phase.isSettled = false) :
    ballots es = [] := by
  cases hpoll with
  | early _ hn => exact hn
  | asking _ _ _ hp' | waiting _ _ _ _ hp' | requeueing hp' | exiting hp' =>
    rw [hp'] at hp
    cases hp

theorem carry (hpoll : Poll h es r) {p : Phase} {events : List Event} (hn : ballots events = [])
    (hr : r.phase.isSettled = false) (hp : p.isSettled = false) :
    Poll h (es ++ events) { r with phase := p } := by
  refine .early hp ?_
  rw [ballots_append, hn, hpoll.ballots_eq_nil hr, List.append_nil]

end Poll

theorem Walk.poll (hw : Walk h first r es) (hf : first.Fresh) : Poll h es r := by
  induction hw with
  | begin =>
    cases hf with
    | refused _ _ _ hp | ready _ hp => exact .early (hp ▸ rfl) rfl
  | @pace m r reply before events p hw hm hl hr hs ih =>
    cases hs with
    | requeue => exact .exiting rfl
    | stride hs =>
      cases hs with
      | @blame f hp hh =>
        have hn := ih.ballots_eq_nil (hp ▸ rfl)
        refine .asking f (m.source.audience r) false rfl ⟨m, hm, r, hr, rfl, hp, hl, hh, ?_⟩ ?_
        all_goals rw [ballots_append, hn]
        all_goals rfl
      | @tellError f l ls vote hp =>
        obtain ⟨ha, hv⟩ := ih.of_blaming hp
        rw [← List.append_nil (ballots before)] at ha hv
        refine .waiting l f ls vote rfl ?_ ?_
        all_goals rw [ballots_append]
        all_goals assumption
      | @vote v l f ls vote hp =>
        obtain ⟨ha, hv⟩ := ih.of_voting hp
        refine .asking f ls (v || vote) rfl ?_ ?_
        · rw [ballots_append, List.map_append, List.append_assoc]
          exact ha
        · rw [ballots_append, List.any_append, ← hv, Bool.or_comm]
          simp [ballots, Event.ballot?]
      | @count f vote hp =>
        cases vote with
        | false => exact .exiting rfl
        | true =>
          obtain ⟨ha, hv⟩ := ih.of_blaming hp
          rw [List.append_nil] at ha
          rw [List.append_nil]
          exact .requeueing rfl ⟨f, ha⟩ hv.symm
      | succeed | abandon => exact .exiting rfl
      | @answer rest o hp => exact ih.carry rfl (hp ▸ rfl) rfl
      | _ hp => exact ih.carry rfl (hp ▸ rfl) rfl

/-- Who votes on a retry has been asked. -/
theorem Walk.asked (hw : Walk h first r es) (hf : first.Fresh) {l : ListenerName} {v : Bool}
    (hv : .voted r.id l v ∈ es) : ∃ f voters, ∃ m ∈ h, m.Asks r.id f voters := by
  induction hw with
  | begin => cases hv
  | @pace m r reply before events p hw hm hl hr hs ih =>
    rcases List.mem_append.mp hv with hv | hv
    · exact ih hv
    cases hs with
    | requeue => cases hv
    | stride hs =>
      cases hs with
      | @vote _ l' f ls vote hp =>
        obtain ⟨ha, _⟩ := (hw.poll hf).of_voting hp
        exact ⟨f, _, ha⟩
      | _ => simp at hv

end Worker

end Outbox
