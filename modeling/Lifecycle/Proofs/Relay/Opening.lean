import Lifecycle.Proofs.Relay.Turning

/-!
# The turns of the gate of a relay that pumps streams

A turn of one of the tasks of the gate calls a hook at most.  The starting hook opens the stream of
its session and adds its pump.
-/

namespace Lifecycle.Executor

variable {σ τ : Type} {x : Executor σ τ} {id : TaskId}

theorem hasten_eq (queued : id ∈ x.ready) :
    x.hasten id = { x with ready := id :: x.ready.filter (· ≠ id) } :=
  if_pos (List.contains_iff_mem.mpr queued)

theorem keeps_hasten (queued : id ∈ x.ready) : Keeps none x (x.hasten id) := by
  rw [hasten_eq queued]
  refine ⟨rfl, fun h => ⟨h.tasks, h.running⟩, fun _ _ => rfl, fun _ _ _ => Iff.rfl,
    fun k _ ready => ?_, fun _ _ _ _ _ => .inl, fun _ _ _ armed => armed⟩
  by_cases hk : k = id
  · rw [hk]
    exact List.mem_cons_self
  · exact List.mem_cons_of_mem _ (List.mem_filter.mpr ⟨ready, by simpa using hk⟩)

end Lifecycle.Executor

namespace Lifecycle.Relay.Scenario

open HasExecutor
open Gate.Hosting (Frame Conduct Behaves Steady job? hookRun?)

section Hooks

variable {opens : Nat → Stream} {id : TaskId} {w : World} {past : List Moment}
  {t : Gate.Task Hook}

def opened (opens : Nat → Stream) (w : World) (i : Nat) : World :=
  HasExecutor.spawn (World.note { w with starts := w.starts + 1 } (.opened w.starts))
    (.pump i (opens w.starts))

theorem runActivate_eq (feed : w.feed = .flowing opens) (i : Nat) :
    Gate.Hooked.runActivate (Gate.Hooked.callActivate w i).1 i (Gate.Hooked.callActivate w i).2 =
      (opened opens w i, .ended .returned) := by
  cases w
  cases feed
  rfl

theorem runDeactivate_eq (feed : w.feed = .flowing opens) (j : Nat) :
    Gate.Hooked.runDeactivate (Gate.Hooked.callDeactivate w j).1 j
      (Gate.Hooked.callDeactivate w j).2 = ({ w with stops := w.stops + 1 }, .ended none) := by
  cases w
  cases feed
  rfl

theorem conduct_opened {turn : Option TaskId} (ordered : w.executor.Ordered turn) (i : Nat) :
    Conduct w [] (opened opens w i) := by
  have hnoted : Frame none w
      (World.note { w with starts := w.starts + 1 } (.opened w.starts)) :=
    Gate.Hosting.frame_of_eq rfl rfl rfl
  have hspawn := Gate.Hosting.frame_spawn
    (World.note { w with starts := w.starts + 1 } (.opened w.starts)) (.pump i (opens w.starts))
  refine .aside hnoted (.of_frame (hspawn.others ?_ ?_))
  · rw [job?_eq]
    exact congrArg (Option.bind · _) ordered.toNumbered.fresh
  · rw [job?_eq]
    exact congrArg (Option.bind · _) (Executor.task?_spawn ordered.toNumbered _)

theorem behaves (feed : w.feed = .flowing opens) (ordered : w.executor.Ordered (some id))
    (plain : Gate.Hosting.Task.inHook t = false) : Behaves w t [] := by
  cases t with
  | activation i hook =>
      cases hook with
      | some hook => cases plain
      | none =>
          by_cases hcalls : (Gate.Hosting.state w).activationAwaits i = [] ∧
              Gate.Hosting.callsHook (Gate.Hosting.step w (.activate i)).2 = true
          · rw [Behaves, hookRun?, if_pos hcalls]
            have hasked := Beside.input ordered (.activate i)
            dsimp only
            rw [runActivate_eq (hasked.feed.trans feed)]
            exact conduct_opened hasked.ordered i
          · rw [Behaves, hookRun?, if_neg hcalls]
  | teardown j hook =>
      cases hook with
      | some hook => cases plain
      | none =>
          by_cases hcalls : (Gate.Hosting.state w).teardownAwaits j = [] ∧
              Gate.Hosting.callsHook (Gate.Hosting.step w (.deactivate j)).2 = true
          · rw [Behaves, hookRun?, if_pos hcalls]
            dsimp only
            rw [runDeactivate_eq ((Beside.input ordered _).feed.trans feed)]
            exact .of_frame (Gate.Hosting.frame_of_eq rfl rfl rfl)
          · rw [Behaves, hookRun?, if_neg hcalls]
  | grace job epoch => rfl

theorem steady_turn (h : Upheld opens none [] w past) (steady : ∃ since, Steady w since)
    (queued : id ∈ w.executor.ready) (task : w.executor.task? id = some (.gate t)) :
    ∃ since, Steady (Hosted.leave (Gate.Hooked.turn (update w (·.call id)) t).1 id
      (Gate.Hooked.turn (update w (·.call id)) t).2) since := by
  have hhasten : Frame none w (update w (·.hasten id)) :=
    Gate.Hosting.frame_update (Executor.keeps_hasten queued)
  obtain ⟨since, hsteady⟩ := steady_conduct steady ⟨_, .of_frame hhasten⟩
  have hready : (executor (update w (·.hasten id))).ready =
      [] ++ id :: w.executor.ready.filter (· ≠ id) :=
    congrArg Executor.ready (Executor.hasten_eq queued)
  have hbegin : Gate.Hosting.begin (update w (·.hasten id)) id
      ([] ++ w.executor.ready.filter (· ≠ id)) = update w (·.call id) := by
    have hcall : { w.executor.hasten id with
        ready := w.executor.ready.filter (· ≠ id), running := some id } = w.executor.call id := by
      rw [Executor.hasten_eq queued]
      rfl
    exact congrArg (fun x => { w with executor := x }) hcall
  have hjob : job? (update w (·.hasten id)) id = some t := by
    rw [hhasten.job id nofun, job?_eq, task]
    rfl
  have hcalled := (h.call none queued task nofun).1
  have hbehaves := behaves hcalled.feed hcalled.ordered (t := t)
    (by simpa [Task.isPlain] using h.plain id _ task)
  rw [← hbegin] at hbehaves ⊢
  obtain ⟨begun, hnext, _⟩ := hsteady.happens (.turn hready hjob hbehaves)
  refine ⟨begun, ?_⟩
  generalize Gate.Hooked.turn (Gate.Hosting.begin (update w (·.hasten id)) id
    ([] ++ w.executor.ready.filter (· ≠ id))) t = result at hnext ⊢
  obtain ⟨v, rest⟩ := result
  cases rest <;> exact hnext

end Hooks

/-! ## Turns that open nothing -/

section Errands

variable {opens : Nat → Stream} {skip : Option Nat} {turn : Option TaskId} {id : TaskId}
  {hand : List Consumer} {w : World} {past : List Moment} {t : Gate.Task Hook}

theorem Upheld.errand (h : Upheld opens turn hand w past) (idle : Idle skip w) (input : Input)
    (admitted : w.relay.admits (.gate input) = true)
    (civil : w.relay.isCivil (.gate input) = true) (kept : input ≠ .drop)
    (apart : ∀ i, skip ≠ some i → Relay.Act.concerns i (.gate input) = false) :
    Stays opens skip turn hand w past [.gate input] (Gate.Hosting.input w input) := by
  refine h.traces (.input h.ordered admitted civil) (by simp) (fun a ha drop => kept ?_) idle
    fun i other a ha => ?_
  · rw [List.mem_singleton.mp ha] at drop
    exact Relay.Act.gate.inj drop
  · rw [List.mem_singleton.mp ha]
    exact apart i other

theorem Upheld.elapses (h : Upheld opens turn hand w past) (idle : Idle skip w) (epoch : Nat) :
    Stays opens skip turn hand w past [.gate (.drainElapsed epoch)]
      (Gate.Hosting.input w (.drainElapsed epoch)) :=
  h.errand idle (.drainElapsed epoch) rfl rfl nofun fun _ _ => rfl

theorem Upheld.stops (h : Upheld opens turn hand w past) (idle : Idle skip w) (j : Nat) :
    Stays opens skip turn hand w past [.gate (.deactivated j none)]
      (Gate.Hosting.input w (.deactivated j none)) :=
  h.errand idle (.deactivated j none) rfl rfl nofun fun _ _ => rfl

theorem errand_of_ended {q : Task} (hq : (Rest.ended : Rest Signal Task).program? = some q) :
    q.isErrand = true := by
  cases hq

theorem step_activate (paced : ∃ n, w.gate.Paced n) (i : Nat) :
    (Gate.Hosting.step w (.activate i)).2 = [] ∧ Gate.Hosting.input w (.activate i) = w ∨
      w.gate.ActivationDue i ∧ (Gate.Hosting.step w (.activate i)).2 = [.callActivate i] ∧
        Gate.Hosting.input w (.activate i) =
          { w with relay := { w.relay with gate := w.gate.setActivation i .running } } := by
  obtain ⟨n, hpaced⟩ := paced
  have hmove : Gate.State.Move w.relay.accepts w.gate (.activate i) _ _ :=
    Gate.State.step_move w.gate _
  have hstep : Gate.Hosting.step w (.activate i) =
      ({ w with relay := (w.relay.step (.activate i)).1 }, (w.relay.step (.activate i)).2) := rfl
  rw [Gate.Hosting.input, hstep, State.step]
  rcases hmove.activate_cases hpaced with ⟨hsame, hnone⟩ | ⟨hdue, hcalled, hcalls⟩
  · have hrefused : w.relay.gate.step w.relay.accepts (.activate i) = (w.gate, []) :=
      Prod.ext hsame hnone
    rw [hrefused]
    exact .inl ⟨rfl, rfl⟩
  · have hstarted : w.relay.gate.step w.relay.accepts (.activate i) =
        (w.gate.setActivation i .running, [.callActivate i]) := Prod.ext hcalled hcalls
    rw [hstarted]
    exact .inr ⟨hdue, rfl, rfl⟩

theorem runActivation_eq (feed : w.feed = .flowing opens) (i : Nat) :
    Gate.Hooked.runActivation (Gate.Hooked.callActivate w i).1 i
      (Gate.Hooked.callActivate w i).2 =
      (Gate.Hosting.input (opened opens w i) (.activated i .returned), .ended) := by
  rw [Gate.Hooked.runActivation, runActivate_eq feed]

theorem runTeardown_eq (feed : w.feed = .flowing opens) (j : Nat) :
    Gate.Hooked.runTeardown (Gate.Hooked.callDeactivate w j).1 j
      (Gate.Hooked.callDeactivate w j).2 =
      (Gate.Hosting.input { w with stops := w.stops + 1 } (.deactivated j none), .ended) := by
  rw [Gate.Hooked.runTeardown, runDeactivate_eq feed]

theorem Upheld.turnTeardown (h : Upheld opens turn hand w past) (idle : Idle skip w) (j : Nat) :
    ∃ acts, Stays opens skip turn hand w past acts
        (Gate.Hooked.turn w (.teardown j none)).1 ∧
      ∀ q, (Gate.Hooked.turn w (.teardown j none)).2.program? = some q → q.isErrand = true := by
  cases hawaits : (Gate.Hosting.state w).teardownAwaits j with
  | cons a rest =>
      rw [Gate.Hosting.turn_teardown_of_awaits hawaits]
      refine ⟨_, (h.refl idle).toStays, fun q hq => ?_⟩
      cases hq
      rfl
  | nil =>
      have hasked := h.errand idle (.deactivate j) rfl rfl nofun fun _ _ => rfl
      rw [Gate.Hosting.turn_teardown hawaits]
      split
      · have hidle := hasked.idle h.ordered idle
        generalize Gate.Hosting.input w (.deactivate j) = v at hasked hidle ⊢
        have hstopped : Stays opens skip turn hand v _ [] { v with stops := v.stops + 1 } :=
          hasked.upheld.still hidle rfl rfl rfl rfl (fun _ _ => Iff.rfl) rfl (fun held => held)
            (hasked.upheld.leased.same rfl rfl fun _ _ => Iff.rfl)
        have hover := hstopped.upheld.stops (hstopped.idle hasked.upheld.ordered hidle) j
        rw [runTeardown_eq hasked.upheld.feed]
        exact ⟨_, hasked.trans (hstopped.trans hover), fun _ => errand_of_ended⟩
      · exact ⟨_, hasked, fun _ => errand_of_ended⟩

theorem Upheld.turnGrace (h : Upheld opens turn hand w past) (idle : Idle skip w)
    (job : Debouncer.Job) (epoch : Option Nat) :
    ∃ acts, Stays opens skip turn hand w past acts
        (Gate.Hooked.turn w (.grace job epoch)).1 ∧
      ∀ q, (Gate.Hooked.turn w (.grace job epoch)).2.program? = some q → q.isErrand = true := by
  have hpoll : (Gate.Hosting.timer w).poll (now w) job = w.timer.poll w.executor.now job := rfl
  simp only [Gate.Hooked.turn, hpoll]
  cases w.timer.poll w.executor.now job with
  | dropped => exact ⟨_, (h.refl idle).toStays, fun _ => errand_of_ended⟩
  | sleep deadline =>
      refine ⟨_, (h.refl idle).toStays, fun q hq => ?_⟩
      cases hq
      rfl
  | start timer =>
      have hstarted : Stays opens skip turn hand w past [] { w with timer := timer } :=
        h.still idle rfl rfl rfl rfl (fun _ _ => Iff.rfl) rfl (fun held => held)
          (h.leased.same rfl rfl fun _ _ => Iff.rfl)
      cases epoch with
      | none => exact ⟨_, hstarted, fun _ => errand_of_ended⟩
      | some epoch =>
          have hover := hstarted.upheld.elapses (hstarted.idle h.ordered idle) epoch
          exact ⟨_, hstarted.trans hover, fun _ => errand_of_ended⟩

theorem Upheld.turnQuiet (h : Upheld opens turn hand w past) (idle : Idle skip w) (i : Nat)
    (quiet : w.record (.gate (.activation i none)) = []) :
    ∃ acts, Stays opens skip turn hand w past acts
        (Gate.Hooked.turn w (.activation i none)).1 ∧
      ∀ q, (Gate.Hooked.turn w (.activation i none)).2.program? = some q → q.isErrand = true := by
  cases hawaits : (Gate.Hosting.state w).activationAwaits i with
  | cons a rest =>
      rw [Gate.Hosting.turn_activation_of_awaits hawaits]
      refine ⟨_, (h.refl idle).toStays, fun q hq => ?_⟩
      cases hq
      rfl
  | nil =>
      rw [Gate.Hosting.turn_activation hawaits]
      rcases step_activate h.attended.paced i with ⟨hrefused, hsame⟩ | ⟨_, hcalled, _⟩
      · rw [hrefused, hsame]
        exact ⟨_, (h.refl idle).toStays, fun _ => errand_of_ended⟩
      · have hfree : w.gate.activationAwaits i = [] := hawaits
        simp [World.record, hfree, hcalled, Gate.Hosting.callsHook] at quiet

end Errands

/-! ## The turn that opens a stream -/

section Opening

variable {opens : Nat → Stream} {skip : Option Nat} {turn : Option TaskId} {id : TaskId}
  {hand : List Consumer} {w : World} {past : List Moment} {i : Nat} {p : Task}

theorem idle_of_other (ordered : w.executor.Ordered (some id))
    (task : w.executor.task? id = some p) (other : ∀ i s, p ≠ .pump i s) : Idle skip w := by
  intro i _ k s hk running
  rw [ordered.turn] at running
  cases running
  exact other i s (Option.some.inj (task.symm.trans hk))

theorem current_of_due (paced : ∃ n, w.gate.Paced n) (due : w.gate.ActivationDue i) :
    w.gate.isCurrent i = true := by
  obtain ⟨n, hpaced⟩ := paced
  exact (hpaced.isCurrent_iff_uncancelled ((hpaced.activationDue_iff i).mp due).1).mpr
    (hpaced.uncancelled_of_due due)

theorem starts_of_due (paced : ∃ n, w.gate.Paced n) (due : w.gate.ActivationDue i)
    (called : ∀ j, j < w.starts ↔ w.gate.isKnown j = true) : w.starts = i := by
  obtain ⟨n, hpaced⟩ := paced
  obtain ⟨hi, hn⟩ := (hpaced.activationDue_iff i).mp due
  have hknown (j : Nat) : j < w.starts ↔ j < w.gate.sessions.length ∧ 4 * j + 1 ≤ n :=
    (called j).trans (hpaced.isKnown_iff j)
  have hlow := hknown w.starts
  have hhigh := hknown i
  by_cases hpos : w.starts = 0
  · omega
  · have hlast := hknown (w.starts - 1)
    omega

theorem flows_opened (ordered : w.executor.Ordered turn) (starts : w.starts = i)
    (known : w.gate.isKnown i = true) (current : w.gate.isCurrent i = true)
    (unmanned : ∀ id s, w.executor.task? id ≠ some (.pump i s)) (calm : (opens i).Calm)
    (silent : output i past = []) (quiet : ended i past = false) :
    Flows opens i (opened opens w i) past [] w.executor.nextTask (opens i) where
  called := by
    rw [← starts]
    exact Nat.lt_succ_self w.starts
  known := known
  current := current
  task := (Executor.task?_spawn ordered.toNumbered _).trans (by rw [starts])
  only k t task := by
    rcases Executor.task?_of_spawn ordered.toNumbered task with ⟨hk, _⟩ | hold
    · exact hk
    · exact absurd hold (unmanned k t)
  goesOn := .refl (opens i)
  calm := calm
  poised := .inl (List.mem_append_right _ (List.mem_singleton_self _))
  told := silent
  quiet := quiet

theorem Upheld.adds (h : Upheld opens turn hand w past) (idle : Idle (some i) w)
    (starts : w.starts = i) :
    Stays opens (some i) turn hand w past [] (opened opens w i) := by
  have hnoted : Stays opens (some i) turn hand w past []
      (World.note { w with starts := w.starts + 1 } (.opened w.starts)) := by
    refine h.still idle rfl rfl rfl rfl (fun j other => ?_) rfl (fun held => held)
      (h.leased.same rfl rfl fun _ _ => Iff.rfl)
    have hj : j ≠ i := fun heq => other (congrArg some heq.symm)
    change j < w.starts + 1 ↔ j < w.starts
    omega
  have hadded := hnoted.upheld.spawn (p := .pump i (opens w.starts))
    (hnoted.idle h.ordered idle) rfl rfl (fun j s heq => by cases heq; rfl)
    (hnoted.upheld.leased.spawn hnoted.upheld.ordered.toNumbered nofun)
  exact hnoted.trans hadded.toStays

/-- The starting hook of the session is called: it opens the stream and adds the pump, and then it
returns. -/
theorem Upheld.opening (h : Upheld opens (some id) hand w past)
    (task : w.executor.task? id = some p) (other : ∀ i s, p ≠ .pump i s)
    (due : w.gate.ActivationDue i) (called : ∀ j, j < w.starts ↔ w.gate.isKnown j = true)
    (input : Gate.Hosting.input w (.activate i) =
      { w with relay := { w.relay with gate := w.gate.setActivation i .running } }) :
    let v := opened opens (Gate.Hosting.input w (.activate i)) i
    Stays opens (some i) (some id) hand w past [.gate (.activate i)] v ∧
      Stays opens none (some id) hand v (past ++ w.relay.history [.gate (.activate i)])
        [.gate (.activated i .returned)] (Gate.Hosting.input v (.activated i .returned)) := by
  have hstarts := starts_of_due h.attended.paced due called
  have hidle : Idle (some i) w := idle_of_other h.ordered task other
  have hcalled := h.errand hidle (.activate i) rfl rfl nofun
    fun j hj => beq_eq_false_iff_ne.mpr fun heq => hj (congrArg some heq)
  rw [input] at hcalled ⊢
  have hadded := hcalled.upheld.adds (hcalled.idle h.ordered hidle) hstarts
  have hopened : Stays opens (some i) (some id) hand w past [.gate (.activate i)] _ :=
    hcalled.trans hadded
  have hstill : Idle none (opened opens _ i) := idle_of_other hopened.upheld.ordered
    (hopened.tasks id p task) other
  exact ⟨hopened, hopened.upheld.errand hstill (.activated i .returned) rfl rfl nofun
    fun _ _ => rfl⟩

theorem Upheld.stands_opened (h : Upheld opens turn hand w past) (due : w.gate.ActivationDue i)
    (called : ∀ j, j < w.starts ↔ w.gate.isKnown j = true) (unopened : Unopened i w past)
    (calm : (opens i).Calm)
    (input : Gate.Hosting.input w (.activate i) =
      { w with relay := { w.relay with gate := w.gate.setActivation i .running } }) :
    Stands opens i (opened opens (Gate.Hosting.input w (.activate i)) i)
      (past ++ w.relay.history [.gate (.activate i)]) (relaying i []) := by
  have hstarts := starts_of_due h.attended.paced due called
  have hasked := (Beside.input h.ordered (.activate i)).ordered
  rw [input] at hasked ⊢
  have hcurrent : (w.gate.setActivation i .running).isCurrent i = true := by
    rw [Gate.State.isCurrent_setActivation]
    exact current_of_due h.attended.paced due
  have hpast : past ++ w.relay.history [.gate (.activate i)] =
      past ++ [⟨w.relay, .gate (.activate i)⟩] := rfl
  have hsilent : output i (past ++ w.relay.history [.gate (.activate i)]) = [] := by
    rw [hpast, output_append, unopened.silent]
    rfl
  have hquiet : ended i (past ++ w.relay.history [.gate (.activate i)]) = false := by
    rw [hpast, ended_append, unopened.quiet]
    rfl
  exact .flows _ _ _ (flows_opened hasked hstarts due.isKnown_running hcurrent unopened.unmanned
    calm hsilent hquiet)

end Opening

/-! ## The turns of the tasks of the gate -/

section Turns

variable {opens : Nat → Stream} {settings : RelaySettings} {skip : Option Nat} {id : TaskId}
  {v w : World} {past : List Moment} {acts more : List Relay.Act} {log : Log}
  {t : Gate.Task Hook} {rest : Rest Signal Task}

theorem record_gate (w : World) (t : Gate.Task Hook) :
    w.record (.gate t) = [] ∨ ∃ i, t = .activation i none ∧ w.gate.activationAwaits i = [] ∧
      Gate.Hosting.callsHook (Gate.Hosting.step w (.activate i)).2 = true ∧
      w.record (.gate t) = [(i, .opened w.starts)] := by
  cases t with
  | activation i hook =>
      cases hook with
      | some hook => exact .inl rfl
      | none =>
          simp only [World.record]
          split
          · rename_i hcalls
            exact .inr ⟨i, rfl, hcalls.1, hcalls.2, rfl⟩
          · exact .inl rfl
  | _ => exact .inl rfl

theorem Upheld.turnErrand (h : Upheld opens (some id) [] w past)
    (task : w.executor.task? id = some (.gate t)) (quiet : w.record (.gate t) = []) :
    ∃ acts, Stays opens none (some id) [] w past acts (Gate.Hooked.turn w t).1 ∧
      ∀ q, (Gate.Hooked.turn w t).2.program? = some q → q.isErrand = true := by
  have hidle : Idle none w := idle_of_other h.ordered task nofun
  have hplain := h.plain id _ task
  cases t with
  | activation i hook =>
      cases hook with
      | some hook => cases hplain
      | none => exact h.turnQuiet hidle i quiet
  | teardown j hook =>
      cases hook with
      | some hook => cases hplain
      | none => exact h.turnTeardown hidle j
  | grace job epoch => exact h.turnGrace hidle job epoch

theorem Upheld.turnedErrand (h : Upheld opens none [] w past) (queued : id ∈ w.executor.ready)
    (task : w.executor.task? id = some (.gate t))
    (stays : Stays opens skip (some id) [] (update w (·.call id)) past more v)
    (rest : Rest Signal Task) (errand : ∀ q, rest.program? = some q → q.isErrand = true) :
    Passes opens skip none [] w past more (Hosted.leave v id rest) := by
  obtain ⟨_, hcall, _⟩ := h.call skip queued task nofun
  have hstill := stays.tasks id _ task
  have hbegun : Passes opens skip (some id) [] w past more v :=
    ⟨stays.upheld, hcall.trans stays.undisturbed⟩
  have hleft : Passes opens skip none [] v _ [] (Hosted.leave v id rest) :=
    hbegun.upheld.leave hstill (fun q hq => Task.isPlain_of_errand (errand q hq)) nofun
    (fun i s hs => by cases errand _ hs)
    (hbegun.upheld.leased.leave hbegun.upheld.ordered hstill (fun s hs => by cases errand _ hs)
      nofun)
  have hall := hbegun.trans hleft
  rwa [List.append_nil] at hall

/-- The turn calls the starting hook of the session, which opens the stream and adds the pump.  What
follows has no part in the session. -/
structure Opens (opens : Nat → Stream) (w : World) (past : List Moment) (id : TaskId) (i : Nat)
    (more : List Relay.Act) (v : World) : Prop where
  due : w.gate.ActivationDue i
  input : Gate.Hosting.input (update w (·.call id)) (.activate i) =
    { update w (·.call id) with relay :=
        { w.relay with gate := w.gate.setActivation i .running } }
  begins : Passes opens (some i) (some id) [] (update w (·.call id)) past [.gate (.activate i)]
    (opened opens (Gate.Hosting.input (update w (·.call id)) (.activate i)) i)
  follows : Undisturbed none
    (opened opens (Gate.Hosting.input (update w (·.call id)) (.activate i)) i) more v
  passes : Passes opens (some i) none [] w past ([.gate (.activate i)] ++ more) v

theorem Floats.gateTurn (h : Floats opens settings w acts)
    (called : ∀ j, j < w.starts ↔ w.gate.isKnown j = true) (queued : id ∈ w.executor.ready)
    (task : w.executor.task? id = some (.gate t)) :
    (∃ since, Steady (Hosted.runTurn w id) since) ∧
      ((update w (·.call id)).record (.gate t) = [] ∧
          (∃ more, Passes opens none none [] w ((State.fresh settings).history acts) more
            (Hosted.runTurn w id)) ∨
        ∃ i more, (update w (·.call id)).record (.gate t) = [(i, .opened w.starts)] ∧
          Opens opens w ((State.fresh settings).history acts) id i more
            (Hosted.runTurn w id)) := by
  obtain ⟨hcall, _, _⟩ := h.upheld.call none queued task nofun
  have hsteady := steady_turn h.upheld h.steady queued task
  rw [h.upheld.runTurn_eq queued task]
  change (∃ since, Steady (Gate.Hosting.reap
    (Hosted.leave (Gate.Hooked.turn (update w (·.call id)) t).1 id
      (Gate.Hooked.turn (update w (·.call id)) t).2)) since) ∧ _
  rcases record_gate (update w (·.call id)) t with hquiet | ⟨i, rfl, hfree, hcalls, hrecord⟩
  · obtain ⟨more, hstays, herrand⟩ := hcall.turnErrand task hquiet
    obtain ⟨last, _, hall, hreaped⟩ :=
      (h.upheld.turnedErrand queued task hstays _ herrand).reaps hsteady
    exact ⟨hreaped, .inl ⟨hquiet, _, hall⟩⟩
  · rcases step_activate hcall.attended.paced i with ⟨hrefused, _⟩ | ⟨hdue, _, hinput⟩
    · rw [hrefused] at hcalls
      cases hcalls
    obtain ⟨hopened, hover⟩ := hcall.opening task nofun hdue called hinput
    have hstays : Stays opens (some i) (some id) [] _ _ ([.gate (.activate i)] ++ _) _ :=
      hopened.trans ⟨⟨hover.upheld, hover.undisturbed.weaken⟩, hover.tasks⟩
    have hasked := Beside.input hcall.ordered (.activate i)
    change (∃ since, Steady (Gate.Hosting.reap _) since) ∧ (_ ∨ ∃ j more, _ ∧
      Opens opens w _ id j more (Gate.Hosting.reap
        (Hosted.leave (Gate.Hooked.turn (update w (·.call id)) (.activation i none)).1 id
          (Gate.Hooked.turn (update w (·.call id)) (.activation i none)).2)))
    rw [Gate.Hosting.turn_activation hfree, if_pos hcalls,
      runActivation_eq (hasked.feed.trans hcall.feed)] at hsteady ⊢
    have hpasses := h.upheld.turnedErrand queued task hstays .ended fun _ => errand_of_ended
    have hleft : Undisturbed none _ [] (Hosted.leave _ id .ended) :=
      .leave hstays.upheld.ordered (hstays.tasks id _ task) nofun nofun
    obtain ⟨last, hreap, hall, hreaped⟩ := hpasses.reaps hsteady
    exact ⟨hreaped, .inr ⟨i, _, hrecord, hdue, hinput, hopened.toPasses,
      hover.undisturbed.trans (hleft.trans hreap.undisturbed), hall⟩⟩

theorem Afloat.turnGate (h : Afloat opens settings w acts log) (calm : ∀ call, (opens call).Calm)
    (queued : id ∈ w.executor.ready) (task : w.executor.task? id = some (.gate t)) :
    (∃ more, Afloat opens settings (Hosted.runTurn w id) (acts ++ more)
      (log ++ (update w (·.call id)).record (.gate t))) ∧
    ∀ i, w.gate.isCurrent i = false →
      deedsOf i ((update w (·.call id)).record (.gate t)) = [] := by
  have hcalled (j : Nat) : j < w.starts ↔ w.gate.isKnown j = true := (h.stands j).called_iff
  obtain ⟨hsteady, ⟨hquiet, more, hpasses⟩ | ⟨i, more, hrecord, hopens⟩⟩ :=
    h.gateTurn hcalled queued task
  · rw [hquiet, List.append_nil]
    exact ⟨⟨more, h.passes hpasses hsteady⟩, fun _ _ => rfl⟩
  · obtain ⟨hcall, _, _⟩ := h.upheld.call none queued task nofun
    obtain ⟨hnone, hun⟩ := (h.stands i).of_unknown hopens.due.isKnown
    have hunopened : Unopened i (update w (·.call id)) ((State.fresh settings).history acts) :=
      ⟨hun.early, hun.unknown, hun.unmanned, hun.silent, hun.quiet⟩
    have hstands := (hcall.stands_opened hopens.due hcalled hunopened (calm i)
      hopens.input).undisturbed hopens.begins.upheld.attended
      (nofun : (none : Option Nat) ≠ some i) hopens.follows
    rw [List.append_assoc, hopens.begins.undisturbed.relay] at hstands
    have hother (j : Nat) (hj : some i ≠ some j) : deedsOf j [(i, Deed.opened w.starts)] = [] :=
      deedsOf_other (fun heq => hj (congrArg some heq)) [.opened w.starts]
    rw [hrecord]
    refine ⟨⟨_, h.extend _ hopens.passes hsteady hother fun j hj => ?_⟩, fun j finished => ?_⟩
    · cases hj
      rw [State.history_append, hnone, List.nil_append,
        starts_of_due h.upheld.attended.paced hopens.due hcalled]
      exact (deedsOf_own i [.opened i]).symm ▸ hstands
    · refine hother j ?_
      rintro ⟨⟩
      have hcurrent : w.gate.isCurrent i = true :=
        current_of_due h.upheld.attended.paced hopens.due
      rw [hcurrent] at finished
      cases finished

end Turns

end Lifecycle.Relay.Scenario
