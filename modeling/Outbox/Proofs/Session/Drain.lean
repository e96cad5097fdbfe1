import Outbox.Proofs.Session.Lines
import Outbox.Proofs.Session.Progress

/-! # Every schedule, and the one that waits

However its steps are mixed, a session that sends lines stays sound. Left alone it comes to the end
of all that waits, in no more steps than the toll says, so a session that waits after each line has
always sent it before the next one. Main statements: `Taking.sound` and `sendAll_drained`. -/
namespace Outbox
set_option autoImplicit false

namespace Session
open Worker
variable {peer : String} {config : Config} {now : Instant} {lines : List String}
  {done held rest : List MessageJob} {s s' : Session}

/-! ## Every schedule -/

theorem sound_opening (peer : String) (config : Config) (hroom : now.HasRoom) :
    Sound peer [] [] [] [] (opening config now) where
  order := rfl
  room := hroom
  calm := ⟨rfl, rfl, rfl, fun _ => rfl, rfl⟩
  stage := .inr ⟨rfl, Nat.succ_pos 4⟩
  inbox := .blank now rfl rfl rfl rfl
  hand := .free rfl rfl rfl ⟨none, rfl⟩
  rest := rfl
  undelayed := by
    intro submission hw
    cases hw
  connection := rfl
  answers := rfl
  stored := List.forall_mem_nil _
  submitted := rfl

theorem Sound.tick (h : Sound peer lines done held rest s) {d : Duration}
    (hs : s.step? (.tick d) = some s') : Sound peer lines done held rest s' := by
  obtain ⟨w, hw, rfl⟩ := Option.map_eq_some_iff.mp hs
  obtain ⟨hroom, rfl⟩ := tick_of_step hw
  exact h.spared ⟨rfl, rfl, rfl, fun hc => { hc with }, fun _ _ hc => hc⟩ hroom h.stage
    (h.inbox.wait (Nat.le_add_right _ _)) rfl h.rest h.undelayed

theorem admitted_of_look? {w v : Worker} (hi : w.interrupted = false)
    (hc : w.loop.mailbox.closed = false) {submission : Submission}
    (h : look? w submission = some v) : Admitted w submission v := by
  unfold look? at h
  split at h
  · cases h
  · rename_i answer u hanswer hlook
    cases h
    rcases look_admitted hi hc submission with ⟨r, hr⟩ | hadmitted
    · rw [hlook] at hr
      exact (hanswer r hr).elim
    · rw [hlook] at hadmitted
      exact hadmitted

theorem Sound.lookAgain (h : Sound peer lines done held rest s) (hs : s.lookAgain? = some s') :
    Sound peer lines done held rest s' := by
  obtain ⟨v, hv, rfl⟩ := Option.map_eq_some_iff.mp hs
  obtain ⟨submission, hw, hlook⟩ := Option.bind_eq_some_iff.mp hv
  have hd := h.undelayed submission hw
  have hadmitted := admitted_of_look? h.calm.going h.inbox.isOpen hlook
  obtain ⟨hnow, hin, hstage, hpicked⟩ := hadmitted.frame
  obtain ⟨ho, hawaited⟩ := hadmitted.awaited h.inbox h.room hd
  have hrest := h.rest
  rw [hw] at hrest
  exact h.spared hadmitted.spared (hnow ▸ h.room) (hin ▸ hstage ▸ h.stage) ho hpicked
    (hawaited.trans hrest) (hadmitted.undelayed hd)

theorem errands_concat (peer : String) (lines : List String) (body : String) :
    errands peer (lines ++ [body]) =
      errands peer lines ++ [errand peer (.ofNat (lines.length + 1)) body] :=
  List.mapIdx_concat

theorem Sound.offer (h : Sound peer lines done held rest s) (hgate : s.worker.waiting = none)
    {body : String} (hs : s.offer? peer body = some s') :
    Sound peer (lines ++ [body]) done held
      (rest ++ [errand peer (.ofNat (lines.length + 1)) body]) s' := by
  have hnumber : s.submitted + 1 = .ofNat (lines.length + 1) := by
    rw [h.submitted, UInt64.ofNat_add]
    rfl
  obtain ⟨v, hv, rfl⟩ := Option.map_eq_some_iff.mp hs
  rw [hnumber] at hv ⊢
  have hadmitted := admitted_of_look? h.calm.going h.inbox.isOpen hv
  obtain ⟨hnow, hin, hstage, hpicked⟩ := hadmitted.frame
  obtain ⟨ho, hawaited⟩ := hadmitted.awaited h.inbox h.room rfl
  have hrest := h.rest
  rw [hgate] at hrest
  have hlater : v.loop.awaited.map (·.2) ++ v.waiting.toList.map (·.job) =
      (rest ++ [errand peer (.ofNat (lines.length + 1)) body]).map (·.toJob) := by
    rw [hawaited, List.map_append, ← hrest]
    simp
  refine {
    order := ?_
    room := hnow ▸ h.room
    calm := hadmitted.spared.calm h.calm
    stage := hin ▸ hstage ▸ h.stage
    inbox := ho
    hand := h.hand.spared hadmitted.spared hpicked
    rest := hlater
    undelayed := hadmitted.undelayed rfl
    connection := h.connection
    answers := hadmitted.spared.answers.trans h.answers
    stored := ?_
    submitted := ?_ }
  · rw [errands_concat, h.order, List.append_assoc]
  · rw [errands_concat]
    refine List.forall_mem_append.mpr ⟨fun j hj => ?_, List.forall_mem_singleton.mpr ?_⟩
    · exact (Store.mem_insert _ _ _).mpr (.inr (h.stored j hj))
    · exact (Store.mem_insert _ _ _).mpr (.inl rfl)
  · rw [List.length_append, List.length_singleton]

theorem Taking.sound (hroom : now.HasRoom) (h : Taking peer config now lines s) :
    ∃ done held rest, Sound peer lines done held rest s := by
  induction h with
  | opening => exact ⟨[], [], [], sound_opening peer config hroom⟩
  | tick d _ hs ih =>
    obtain ⟨done, held, rest, ih⟩ := ih
    exact ⟨done, held, rest, ih.tick hs⟩
  | next _ hs ih =>
    obtain ⟨done, held, rest, ih⟩ := ih
    have hgoing := ih.going
    rw [hs] at hgoing
    cases hgoing with
    | on done held rest hs => exact ⟨done, held, rest, hs⟩
  | offer body _ hgate hs ih =>
    obtain ⟨done, held, rest, ih⟩ := ih
    exact ⟨done, held, _, ih.offer hgate hs⟩
  | lookAgain _ hs ih =>
    obtain ⟨done, held, rest, ih⟩ := ih
    exact ⟨done, held, rest, ih.lookAgain hs⟩

/-! ## Waiting after each line -/

theorem Taking.settle (h : Taking peer config now lines s) (fuel : Nat) :
    Taking peer config now lines (settle fuel s) := by
  induction fuel generalizing s with
  | zero => exact h
  | succ fuel ih =>
    unfold Session.settle
    cases hs : s.next? with
    | none => exact h
    | some s' => exact ih (h.next hs)

/-- All lines taken are executed, and the loop runs and has nothing to do. -/
structure Drained (peer : String) (lines : List String) (s : Session) : Prop where
  sound : Sound peer lines (errands peer lines) [] [] s
  free : s.worker.runs = []
  counted : s.worker.Counted lines.length lines.length
  installed : s.worker.installed = true
  waiting : s.worker.waiting = none
  toll : s.worker.toll = 0

theorem legs_pos_of_outgoing {j : MessageJob} {p : Phase} (h : Outgoing j p) : 0 < legs p := by
  cases h <;> simp [legs, MessageJob.plan, Plan.unlessCanceled, Plan.sendLast]

theorem legs_pos_of_answered {p : Phase} (h : Answered p) : 0 < legs p := by
  cases h <;> simp [legs]

theorem length_errands (peer : String) (lines : List String) :
    (errands peer lines).length = lines.length :=
  List.length_mapIdx

theorem Sound.drained (h : Sound peer lines done held rest s) (hw : s.worker.waiting = none)
    (ht : s.worker.toll = 0) : Drained peer lines s := by
  have hparts := ht
  unfold Worker.toll backlog at hparts
  have hnone : s.worker.loop.awaited = [] := List.length_eq_zero_iff.mp (by omega)
  have hrest : rest = [] := by
    have hmap := h.rest
    rw [hnone, hw] at hmap
    exact List.map_eq_nil_iff.mp hmap.symm
  have hin : s.worker.installed = true := by
    rcases h.stage with ⟨hin, _⟩ | ⟨_, hs⟩
    · exact hin
    · omega
  have honly : ∀ r, s.worker.OnlyRun r → 0 < legs r.phase → False := by
    intro r ho hr
    rw [ho.runs] at hparts
    simp only [List.map_singleton, List.sum_singleton] at hparts
    omega
  subst hrest
  cases h.hand with
  | free hr hp hi hc =>
    have hdone : done = errands peer lines := by
      rw [h.order, List.append_nil, List.append_nil]
    subst hdone
    rw [length_errands] at hc
    exact ⟨h, hr, hc, hin, hw, ht⟩
  | picked j hr hp hi hc =>
    rw [hp] at hparts
    simp only [Option.isSome_some, if_true] at hparts
    omega
  | outgoing j r ho hj hp hc => exact (honly r ho (legs_pos_of_outgoing hp)).elim
  | answered r m ho hp hn hc => exact (honly r ho (legs_pos_of_answered hp)).elim
  | leaving r ho hp hc => exact (honly r ho (by rw [hp]; decide)).elim

/-- The toll pays for all the steps that are left; at its end nothing is left to do. -/
theorem Sound.settle (h : Sound peer lines done held rest s) (hw : s.worker.waiting = none)
    {fuel : Nat} (hf : s.worker.toll ≤ fuel) : Drained peer lines (settle fuel s) := by
  induction fuel generalizing s done held rest with
  | zero => exact h.drained hw (Nat.le_zero.mp hf)
  | succ fuel ih =>
    unfold Session.settle
    have hgoing := h.going
    cases hs : s.next? with
    | none =>
      rw [hs] at hgoing
      cases hgoing with
      | stopped ht => exact h.drained hw (ht hw)
    | some s' =>
      rw [hs] at hgoing
      cases hgoing with
      | on done held rest h' hw' ht =>
        refine ih h' (hw'.trans hw) ?_
        omega

theorem Drained.toll_of_admitted (h : Drained peer lines s) {submission : Submission}
    {v : Worker} (ha : Admitted s.worker submission v) (hl : v.loop.awaited.length ≤ 1)
    (hi : v.loop.idles ≤ 1) : v.toll ≤ 13 := by
  obtain ⟨_, _, hstage, hpicked⟩ := ha.frame
  have hparts := h.toll
  unfold Worker.toll backlog at hparts ⊢
  rw [hstage, hpicked, ha.spared.runs]
  split <;> omega

theorem send_of_accepted {body : String} {v : Worker}
    (h : s.worker.submitAlone (errand peer (s.submitted + 1) body).toJob .zero = (.ok (), v)) :
    s.send peer body = .ok (Session.settle patience { s with
      worker := v
      store := (s.store.insert (errand peer (s.submitted + 1) body).uri).2
      submitted := s.submitted + 1 }) := by
  unfold Session.send
  dsimp only
  rw [errand] at h
  rw [h]
  rfl

/-- A line that comes when all before it are sent is taken at once. -/
theorem Drained.send (h : Drained peer lines s) (body : String) :
    ∃ s', s.offer? peer body = some s' ∧ s.send peer body = .ok (Session.settle patience s') ∧
      s'.worker.waiting = none ∧ s'.worker.toll ≤ patience := by
  let job := errand peer (s.submitted + 1) body
  obtain ⟨haccepted, hadmitted⟩ := look_of_installed h.sound.calm.going h.installed
    h.sound.inbox.isOpen { job := job.toJob, delay := .zero }
  rcases hlook : s.worker.look { job := job.toJob, delay := .zero } with ⟨answer, v⟩
  rw [hlook] at haccepted hadmitted
  obtain rfl : answer = some (.ok ()) := haccepted
  let s' : Session :=
    { s with worker := v, store := (s.store.insert job.uri).2, submitted := s.submitted + 1 }
  have hoffer : s.offer? peer body = some s' := by
    have hv : look? s.worker { job := job.toJob, delay := .zero } = some v := by
      unfold look?
      rw [hlook]
    exact congrArg (Option.map _) hv
  have hsubmit : s.worker.submitAlone (errand peer (s.submitted + 1) body).toJob .zero =
      (.ok (), v) := by
    unfold submitAlone lookAlone
    rw [hlook]
  have hsend : s.send peer body = .ok (Session.settle patience s') := send_of_accepted hsubmit
  have hsound := h.sound.offer h.waiting hoffer
  have hwaiting : v.waiting = none := by
    cases hadmitted with
    | waits _ hin => exact Bool.noConfusion (hin.symm.trans h.installed)
    | taken => rfl
  have hlength : v.loop.awaited.length ≤ 1 := by
    have hrest := congrArg List.length hsound.rest
    simp only [List.length_append, List.length_map, List.length_nil, List.length_singleton] at hrest
    exact Nat.le_trans (Nat.le_add_right _ _) (Nat.le_of_eq hrest)
  have htoll := h.toll_of_admitted hadmitted hlength hsound.inbox.idles_le
  exact ⟨s', hoffer, hsend, hwaiting, Nat.le_trans htoll (by decide)⟩

theorem start_drained (peer : String) (config : Config) (hroom : now.HasRoom) :
    Drained peer [] (start config now) := by
  have htoll : (opening config now).worker.toll = 5 := rfl
  rw [start_eq]
  exact (sound_opening peer config hroom).settle rfl (htoll ▸ by decide)

/-- One line after the other is taken, sent and done with. -/
theorem sendAll_drained (bodies : List String)
    (ht : Taking peer config now lines s) (h : Drained peer lines s) :
    ∃ s', CommandLine.sendAll peer s bodies = .ok s' ∧
      Taking peer config now (lines ++ bodies) s' ∧ Drained peer (lines ++ bodies) s' := by
  induction bodies generalizing lines s with
  | nil =>
    rw [List.append_nil]
    exact ⟨s, rfl, ht, h⟩
  | cons body bodies ih =>
    obtain ⟨s', hoffer, hsend, hwaiting, htoll⟩ := h.send body
    have hsound := h.sound.offer h.waiting hoffer
    have htaken := (ht.offer body h.waiting hoffer).settle patience
    obtain ⟨u, hall, hu⟩ := ih htaken (hsound.settle hwaiting htoll)
    rw [List.append_assoc] at hu
    refine ⟨u, ?_, hu⟩
    unfold CommandLine.sendAll at hall ⊢
    rw [List.foldlM_cons, hsend]
    exact hall

end Session

end Outbox
