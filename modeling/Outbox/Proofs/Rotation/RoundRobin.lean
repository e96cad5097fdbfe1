import Outbox.Proofs.Footprint
import Outbox.Proofs.Reach

/-! # Endpoints in turn

The connection is pointed at an endpoint from two places, when a loop starts and when the connection
is about to come back, and both take the next one of the same rotation. Nothing else moves the
rotation, and after a shutdown nothing does. Main statement: `pointed_round_robin`. -/
namespace Outbox
set_option autoImplicit false

/-- The endpoint that the connection is pointed at. -/
def Event.pointed? : Event → Option Endpoint
  | .link (.point e) => some e
  | _ => none

theorem Event.pointed?_of_byRun {e : Event} (h : e.byRun = true) : e.pointed? = none := by
  cases e with
  | link => cases h
  | _ => rfl

/-- Steps that take a turn of the rotation while there is a connection. -/
def Label.turns : Label → Bool
  | .point | .childRespawning _ => true
  | _ => false

namespace Rotation

theorem next_of_endpoints_nil {r : Rotation} (h : r.endpoints = []) : r.next = (none, r) := by
  rw [next, isEmpty, h]
  rfl

/-- The turn goes to the endpoint under the cursor. -/
theorem next_of_endpoints_ne_nil {r : Rotation} (h : r.endpoints ≠ []) :
    ∃ e, r.endpoints[r.cursor.toNat % r.endpoints.length]? = some e ∧
      r.next = (some e, { r with cursor := r.cursor + 1 }) := by
  have hlt : r.cursor.toNat % r.endpoints.length < r.endpoints.length :=
    Nat.mod_lt _ (List.length_pos_iff.mpr h)
  have hget := List.getElem?_eq_getElem hlt
  refine ⟨_, hget, ?_⟩
  rw [next, isEmpty, List.isEmpty_eq_false_iff.mpr h, if_neg Bool.false_ne_true, current?, hget]

end Rotation

namespace Worker
variable {config : Config} {u w w' v : Worker} {l : Label}

/-- The endpoints that the connection was pointed at, the first one first. -/
def pointed (w : Worker) : List Endpoint := (w.journal.filterMap (·.event.pointed?)).reverse

theorem pointed_of_news {news : List JournalEntry} (hj : v.journal = news ++ w.journal)
    (hnews : ∀ e ∈ news, e.event.pointed? = none) : v.pointed = w.pointed := by
  have hnone : news.filterMap (·.event.pointed?) = [] := List.filterMap_eq_nil_iff.mpr hnews
  rw [pointed, hj, List.filterMap_append, hnone, List.nil_append, pointed]

/-! ## Steps between the turns -/

/-- No turn is taken between `w` and `v`, and the connection is not shut down. -/
structure Unturned (w v : Worker) : Prop where
  rotation : v.rotation = w.rotation
  linked : v.linked = w.linked
  interrupted : v.interrupted = w.interrupted
  pointed : v.pointed = w.pointed

namespace Unturned

theorem refl (w : Worker) : w.Unturned w := ⟨rfl, rfl, rfl, rfl⟩

theorem trans (h : w.Unturned w') (h' : w'.Unturned v) : w.Unturned v where
  rotation := h'.rotation.trans h.rotation
  linked := h'.linked.trans h.linked
  interrupted := h'.interrupted.trans h.interrupted
  pointed := h'.pointed.trans h.pointed

theorem post (w : Worker) (m : Message) (d : Duration) : w.Unturned (w.post m d).2 := by
  rw [post_eq]
  refine ⟨rfl, rfl, rfl, pointed_of_news rfl ?_⟩
  split <;> simp [Event.pointed?]

theorem notify (w : Worker) (m : Message) : w.Unturned (w.notify m) := by
  unfold Worker.notify
  split
  · exact post w m .zero
  · exact refl w

theorem hold (w : Worker) : w.Unturned w.hold :=
  have hheld : w.Unturned { w with keepAlive := w.keepAlive.hold } := ⟨rfl, rfl, rfl, rfl⟩
  hheld.trans (notify _ _)

theorem release (w : Worker) : w.Unturned w.release := by
  have hreleased : w.Unturned { w with keepAlive := w.keepAlive.release } := ⟨rfl, rfl, rfl, rfl⟩
  unfold Worker.release
  dsimp only
  split
  · exact hreleased
  · exact hreleased.trans (notify _ _)

theorem markIdle (w : Worker) : w.Unturned w.markIdle :=
  have hmarked : w.Unturned ({ w with idle := true }.log .markedIdle) := ⟨rfl, rfl, rfl, rfl⟩
  hmarked.trans (notify _ _)

theorem wake (w : Worker) : w.Unturned w.wake := by
  unfold Worker.wake
  split <;> exact ⟨rfl, rfl, rfl, rfl⟩

theorem look (w : Worker) (s : Submission) : w.Unturned (w.look s).2 := by
  have haccept : w.Unturned (w.accept s.job s.delay).2 := by
    have hposted := post w (.request s.job) s.delay
    unfold Worker.accept
    split
    · rename_i v hv
      rw [hv] at hposted
      have hnoted : v.Unturned ({ v with waiting := none }.log (.accepted s.job.id)) :=
        ⟨rfl, rfl, rfl, rfl⟩
      exact (hposted.trans hnoted).trans (wake _)
    · rename_i v hv
      rw [hv] at hposted
      exact hposted.trans ⟨rfl, rfl, rfl, rfl⟩
  unfold Worker.look
  split
  · exact haccept
  · exact ⟨rfl, rfl, rfl, rfl⟩
  · exact ⟨rfl, rfl, rfl, rfl⟩

/-! ### The loop -/

theorem handle (w : Worker) (e : TimerQueue.Entry Message) : w.Unturned (w.handle e) := by
  unfold Worker.handle
  dsimp only
  split
  case h_2 => split <;> exact ⟨rfl, rfl, rfl, rfl⟩
  all_goals exact ⟨rfl, rfl, rfl, rfl⟩

theorem setIdleTimer (w : Worker) : w.Unturned w.setIdleTimer := by
  unfold Worker.setIdleTimer
  split
  · dsimp only
    split <;> exact ⟨rfl, rfl, rfl, rfl⟩
  · exact refl w

theorem askForStop (w : Worker) : w.Unturned w.askForStop := by
  unfold Worker.askForStop
  split
  · dsimp only
    split <;> exact ⟨rfl, rfl, rfl, rfl⟩
  · exact refl w

theorem comeToRest (w : Worker) : w.Unturned w.comeToRest :=
  have hclean : w.Unturned (w.withLoop { w.loop with dirty := false }) := ⟨rfl, rfl, rfl, rfl⟩
  hclean.trans ((setIdleTimer _).trans (askForStop _))

theorem iterate (w : Worker) : w.Unturned w.iterate := by
  have htaken : w.Unturned (w.withLoop (takeInAll w.loop)) := ⟨rfl, rfl, rfl, rfl⟩
  unfold Worker.iterate
  dsimp only
  split
  · exact htaken.trans ⟨rfl, rfl, rfl, rfl⟩
  · split
    · rename_i e queue _
      have hpopped : w.Unturned (w.withLoop { takeInAll w.loop with queue }) := ⟨rfl, rfl, rfl, rfl⟩
      exact hpopped.trans (handle _ e)
    · split
      · exact htaken.trans (comeToRest _)
      · exact htaken

theorem prepare (w : Worker) (pending : List Job) : w.Unturned (w.prepare pending) := by
  obtain ⟨mailbox, _, he⟩ := prepare_eq w pending
  rw [he]
  refine ⟨rfl, rfl, rfl, pointed_of_news rfl ?_⟩
  unfold replay
  split <;> simp [Event.pointed?]

/-! ### The runs -/

theorem unstarted (w : Worker) (job : Job) : w.Unturned (w.unstarted job) := by
  have hspent : w.Unturned (w.spent job) := ⟨rfl, rfl, rfl, rfl⟩
  exact hspent.trans ((hold _).trans ((release _).trans ⟨rfl, rfl, rfl, rfl⟩))

theorem dispatch (w : Worker) (job : Job) (view : View) : w.Unturned (w.dispatch job view) := by
  have hd := dispatch_spec w job view
  generalize w.dispatch job view = v at hd
  cases hd with
  | detached claim inFlight listeners custom =>
    have hadmitted : w.Unturned (w.admitting inFlight listeners) := ⟨rfl, rfl, rfl, rfl⟩
    exact hadmitted.trans ((hold _).trans ⟨rfl, rfl, rfl, rfl⟩)
  | unstarted =>
    have hadmitted : w.Unturned (w.admitting w.inFlight w.listeners) := ⟨rfl, rfl, rfl, rfl⟩
    exact hadmitted.trans (unstarted _ job)
  | closed | duplicate | refused | inline => exact ⟨rfl, rfl, rfl, rfl⟩

theorem freed (w : Worker) (r : Run) : w.Unturned (w.freed r) := by
  unfold Worker.freed
  split
  · rename_i ticket _ _
    have hgiven : w.Unturned
        { w with inFlight := w.givenBack r, tickets := (w.tickets.remove ticket).2 } :=
      ⟨rfl, rfl, rfl, rfl⟩
    exact hgiven.trans (release _)
  · exact ⟨rfl, rfl, rfl, rfl⟩

theorem advance {r : Run} {reply : Reply} (h : w.advanceRun? r reply = some v) : w.Unturned v := by
  cases advanceRun_spec h with
  | going _ _ _ _ _ events _ _ he =>
    rw [noted_eq]
    refine ⟨rfl, rfl, rfl, pointed_of_news rfl fun e hmem => ?_⟩
    obtain ⟨event, hevent, rfl⟩ := List.mem_map.mp (List.mem_reverse.mp hmem)
    exact Event.pointed?_of_byRun (he event hevent)
  | requeued => exact (look w _).trans ⟨rfl, rfl, rfl, rfl⟩
  | ended =>
    rw [exit_eq]
    exact (freed w r).trans ⟨rfl, rfl, rfl, rfl⟩

end Unturned

/-- But for a shutdown, only the two places that point the connection take a turn. -/
theorem unturned_of_step (hl : l.turns = false) (hd : l = .shutdown → w.interrupted = true)
    (h : w.step l = some v) : w.Unturned v := by
  cases l with
  | submit job delay =>
    obtain ⟨_, rfl⟩ := submit_of_step h
    exact .look w _
  | lookAgain =>
    obtain ⟨s, _, rfl⟩ := lookAgain_of_step h
    exact .look w s
  | markIdle =>
    obtain ⟨_, rfl⟩ := markIdle_of_step h
    exact .markIdle w
  | addListener | removeListener | setPushId | childTerminated =>
    cases h
    exact ⟨rfl, rfl, rfl, rfl⟩
  | hold =>
    cases h
    exact .hold w
  | release =>
    cases h
    exact .release w
  | childRespawning | point => cases hl
  | cancel handle =>
    obtain ⟨_, rfl⟩ := cancel_of_step h
    exact ⟨rfl, rfl, rfl, rfl⟩
  | shutdown =>
    cases h
    rw [shutdown_of_interrupted (hd rfl)]
    exact .refl w
  | start =>
    cases h
    unfold start
    split <;> exact ⟨rfl, rfl, rfl, rfl⟩
  | join =>
    cases h
    unfold join
    split <;> exact ⟨rfl, rfl, rfl, rfl⟩
  | tick d =>
    obtain ⟨_, rfl⟩ := tick_of_step h
    exact ⟨rfl, rfl, rfl, rfl⟩
  | enter | openLink | opened =>
    obtain ⟨_, rfl⟩ := atStage_eq_some h
    exact ⟨rfl, rfl, rfl, rfl⟩
  | prepare pending =>
    obtain ⟨_, rfl⟩ := atStage_eq_some h
    exact .prepare w pending
  | iterate =>
    obtain ⟨_, rfl⟩ := iterate_of_step h
    exact .iterate w
  | dispatch view =>
    obtain ⟨job, _, rfl⟩ := dispatch_of_step h
    have hpicked : w.Unturned (w.withLoop { w.loop with picked := none }) := ⟨rfl, rfl, rfl, rfl⟩
    exact hpicked.trans (.dispatch _ job view)
  | advance id reply =>
    obtain ⟨r, _, rfl, hrun⟩ := advance_of_step h
    exact .advance hrun

theorem silenced_in_turn (w : Worker) :
    w.silenced.rotation = w.rotation ∧ w.silenced.pointed = w.pointed := by
  have hnews : w.silenced.journal = w.farewell ++ w.journal := rfl
  refine ⟨rfl, pointed_of_news hnews ?_⟩
  unfold farewell
  cases w.linked <;> cases w.installed <;> cases w.loop.mailbox.closed <;> simp [Event.pointed?]

/-! ## Turns -/

theorem rotate_of_unlinked (h : w.linked = false) : w.rotate = w := by
  rw [rotate, h, if_neg Bool.false_ne_true]

/-- A turn points the connection at the next endpoint, if there is one. -/
theorem rotate_of_linked (h : w.linked = true) :
    w.rotate.rotation = w.rotation.next.2 ∧ w.rotate.linked = true ∧
      w.rotate.interrupted = w.interrupted ∧
      w.rotate.pointed = w.pointed ++ w.rotation.next.1.toList := by
  unfold rotate
  rw [if_pos h]
  dsimp only
  split
  · rename_i e he
    refine ⟨rfl, h, rfl, ?_⟩
    rw [he]
    exact List.reverse_cons
  · rename_i he
    refine ⟨rfl, h, rfl, ?_⟩
    rw [he]
    exact (List.append_nil _).symm

theorem unturned_rotate_of_step (hl : l.turns = true) (h : w.step l = some v) :
    w.rotate.Unturned v := by
  cases l with
  | childRespawning =>
    cases h
    exact .refl _
  | point =>
    obtain ⟨_, rfl⟩ := atStage_eq_some h
    unfold point
    split
    · exact ⟨rfl, rfl, rfl, rfl⟩
    · rename_i hu
      rw [rotate_of_unlinked (Bool.eq_false_iff.mpr hu)]
      exact ⟨rfl, rfl, rfl, rfl⟩
  | _ => cases hl

/-- So far `n` turns were taken, by the endpoints one after the other. The cursor is a machine word
and starts again when it has counted to its size. -/
structure InTurn (config : Config) (n : Nat) (w : Worker) : Prop where
  endpoints : w.rotation.endpoints = config.endpoints
  linked : w.linked = !w.interrupted
  cursor : w.rotation.cursor = UInt64.ofNat w.pointed.length
  none_of_nil : config.endpoints = [] → w.pointed = []
  taken : config.endpoints ≠ [] → w.pointed.length = n
  current : ∀ k e, w.pointed[k]? = some e →
    config.endpoints[k % UInt64.size % config.endpoints.length]? = some e

theorem inTurn_create (config : Config) : InTurn config 0 (create config 0) where
  endpoints := rfl
  linked := rfl
  cursor := rfl
  none_of_nil _ := rfl
  taken _ := rfl
  current := nofun

theorem InTurn.of_unturned {n : Nat} (ht : InTurn config n w) (hs : w.Unturned v) :
    InTurn config n v where
  endpoints := hs.rotation ▸ ht.endpoints
  linked := hs.linked ▸ hs.interrupted ▸ ht.linked
  cursor := hs.rotation ▸ hs.pointed ▸ ht.cursor
  none_of_nil := hs.pointed ▸ ht.none_of_nil
  taken := hs.pointed ▸ ht.taken
  current := hs.pointed ▸ ht.current

theorem InTurn.rotate {n : Nat} (ht : InTurn config n w) (hi : w.interrupted = false) :
    InTurn config (n + 1) w.rotate := by
  have hlinked : w.linked = true := by rw [ht.linked, hi, Bool.not_false]
  obtain ⟨hrotation, hlinked', hi', hpointed⟩ := rotate_of_linked hlinked
  have hends : w.rotate.rotation.endpoints = config.endpoints := by
    rw [hrotation, Rotation.endpoints_next, ht.endpoints]
  have hlink : w.rotate.linked = !w.rotate.interrupted := by rw [hlinked', hi', hi, Bool.not_false]
  by_cases hnil : config.endpoints = []
  · have hnext := Rotation.next_of_endpoints_nil (ht.endpoints.trans hnil)
    rw [hnext] at hrotation hpointed
    have hsame : w.rotate.pointed = w.pointed := hpointed.trans (List.append_nil _)
    exact {
      endpoints := hends
      linked := hlink
      cursor := by rw [hrotation, hsame, ht.cursor]
      none_of_nil := fun _ => hsame.trans (ht.none_of_nil hnil)
      taken := fun hne => absurd hnil hne
      current := hsame ▸ ht.current }
  · obtain ⟨e, he, hnext⟩ := Rotation.next_of_endpoints_ne_nil (ht.endpoints ▸ hnil)
    rw [ht.endpoints, ht.cursor, UInt64.toNat_ofNat'] at he
    rw [hnext] at hrotation hpointed
    have hlength : w.rotate.pointed.length = w.pointed.length + 1 := by
      rw [hpointed, List.length_append]
      rfl
    exact {
      endpoints := hends
      linked := hlink
      cursor := by rw [hrotation, hlength, UInt64.ofNat_add, ← ht.cursor]; rfl
      none_of_nil := fun h => absurd h hnil
      taken := fun hne => by rw [hlength, ht.taken hne]
      current := by
        intro k e' hk
        rw [hpointed] at hk
        rcases Nat.lt_trichotomy k w.pointed.length with hlt | rfl | hgt
        · rw [List.getElem?_append_left hlt] at hk
          exact ht.current k e' hk
        · rw [List.getElem?_append_right (Nat.le_refl _), Nat.sub_self] at hk
          cases hk
          exact he
        · have hlast : k < (w.pointed ++ [e]).length := (List.getElem?_eq_some_iff.mp hk).1
          rw [List.length_append, List.length_singleton] at hlast
          omega }

/-- How often a turn was taken before the shutdown. -/
def turnsIn (h : List Moment) : Nat :=
  h.countP fun m => m.label.turns && !m.source.interrupted

theorem turnsIn_concat (h : List Moment) (m : Moment) :
    turnsIn (h ++ [m]) = turnsIn h + (m.label.turns && !m.source.interrupted).toNat := by
  rw [turnsIn, List.countP_append, List.countP_singleton, ← turnsIn]
  cases m.label.turns && !m.source.interrupted <;> rfl

theorem InTurn.step {n : Nat} (ht : InTurn config n w) (hs : w.step l = some v) :
    InTurn config (n + (l.turns && !w.interrupted).toNat) v := by
  cases hl : l.turns with
  | false =>
    rw [Bool.false_and, Bool.toNat_false, Nat.add_zero]
    cases hi : w.interrupted with
    | true => exact ht.of_unturned (unturned_of_step hl (fun _ => hi) hs)
    | false =>
      by_cases hd : l = .shutdown
      · subst hd
        cases hs
        obtain ⟨hrotation, hpointed⟩ := silenced_in_turn w
        rw [shutdown_eq hi]
        exact {
          endpoints := hrotation ▸ ht.endpoints
          linked := rfl
          cursor := hrotation ▸ hpointed ▸ ht.cursor
          none_of_nil := hpointed ▸ ht.none_of_nil
          taken := hpointed ▸ ht.taken
          current := hpointed ▸ ht.current }
      · exact ht.of_unturned (unturned_of_step hl (fun h => absurd h hd) hs)
  | true =>
    have hunturned := unturned_rotate_of_step hl hs
    cases hi : w.interrupted with
    | true =>
      have hlinked : w.linked = false := by rw [ht.linked, hi, Bool.not_true]
      rw [rotate_of_unlinked hlinked] at hunturned
      exact ht.of_unturned hunturned
    | false => exact (ht.rotate hi).of_unturned hunturned

theorem inTurn_of_steps {ls : List Label} (hs : (create config 0).steps ls = some w) :
    InTurn config (turnsIn ((create config 0).history ls)) w := by
  refine history_induction (P := fun h w => InTurn config (turnsIn h) w) (inTurn_create config)
    (fun h u l v _ ht hstep => ?_) hs
  rw [turnsIn_concat]
  exact ht.step hstep

/-! ## After the shutdown -/

theorem unturned_of_severed (hi : w.interrupted = true) (hu : w.linked = false)
    (h : w.step l = some v) : w.Unturned v := by
  cases hl : l.turns with
  | false => exact unturned_of_step hl (fun _ => hi) h
  | true =>
    have hs := unturned_rotate_of_step hl h
    rwa [rotate_of_unlinked hu] at hs

theorem unturned_of_steps (hi : w.interrupted = true) (hu : w.linked = false) {ls : List Label}
    (h : w.steps ls = some v) : w.Unturned v := by
  induction ls generalizing w with
  | nil =>
    cases h
    exact .refl _
  | cons l ls ih =>
    obtain ⟨u, hl, hs⟩ := steps_cons_eq_some.mp h
    have hunturned := unturned_of_severed hi hu hl
    exact hunturned.trans (ih (hunturned.interrupted.trans hi) (hunturned.linked.trans hu) hs)

/-- Without endpoints the connection is never pointed anywhere. With them every start of the loop
and every return of the connection before the shutdown points it once, and the endpoints take turns
in their order, as long as the turns can be counted in a machine word. After the shutdown the
connection is not pointed any more, and the rotation stands still. -/
theorem pointed_round_robin {ls : List Label} (hs : (create config 0).steps ls = some w) :
    (config.endpoints = [] → w.pointed = []) ∧
    (config.endpoints ≠ [] → w.pointed.length = turnsIn ((create config 0).history ls) ∧
      ∀ k < w.pointed.length, k < UInt64.size →
        w.pointed[k]? = config.endpoints[k % config.endpoints.length]?) ∧
    (w.interrupted = true → ∀ ms v, w.steps ms = some v →
      v.pointed = w.pointed ∧ v.rotation = w.rotation) := by
  have ht := inTurn_of_steps hs
  refine ⟨ht.none_of_nil, fun hne => ⟨ht.taken hne, fun k hk hsize => ?_⟩, fun hi ms v hv => ?_⟩
  · have hget := List.getElem?_eq_getElem hk
    rw [hget, ← ht.current k _ hget, Nat.mod_eq_of_lt hsize]
  · have hlinked : w.linked = false := by rw [ht.linked, hi, Bool.not_true]
    have hunturned := unturned_of_steps hi hlinked hv
    exact ⟨hunturned.pointed, hunturned.rotation⟩

def twoServers : Config where
  endpoints := [⟨"a.example.net", 5222⟩, ⟨"b.example.net", 5223⟩]

/-- The connection comes back before the loop starts and again after it. -/
def reconnecting : List Label :=
  [.childRespawning "early"] ++ opening ++ [.childRespawning "late", .childTerminated "gone",
    .shutdown]

theorem three_turns_over_two_servers :
    ∃ w v, (create twoServers 0).steps reconnecting = some w ∧ w.interrupted = true ∧
      w.steps [.childRespawning "too late"] = some v ∧
      w.pointed.map Endpoint.text =
        ["a.example.net:5222", "b.example.net:5223", "a.example.net:5222"] ∧
      turnsIn ((create twoServers 0).history reconnecting) = 3 ∧
      w.pointed[2]? = twoServers.endpoints[0]? ∧
      v.pointed = w.pointed ∧ v.rotation = w.rotation := by
  have h : ∃ w v, (create twoServers 0).steps reconnecting = some w ∧ w.interrupted = true ∧
      w.steps [.childRespawning "too late"] = some v ∧
      w.pointed.map Endpoint.text =
        ["a.example.net:5222", "b.example.net:5223", "a.example.net:5222"] :=
    ⟨_, _, rfl, rfl, rfl, rfl⟩
  obtain ⟨w, v, hw, hi, hv, htexts⟩ := h
  obtain ⟨-, hturns, hafter⟩ := pointed_round_robin hw
  obtain ⟨hcount, hget⟩ := hturns (by decide)
  have hlength : w.pointed.length = 3 := by simpa using congrArg List.length htexts
  exact ⟨w, v, hw, hi, hv, htexts, hcount ▸ hlength, hget 2 (by omega) (by decide),
    hafter hi _ v hv⟩

end Worker

end Outbox
