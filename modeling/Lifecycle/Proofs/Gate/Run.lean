import Lifecycle.Gate.Step

/-!
# Runs of a gate

A run takes inputs in any order, as long as each can come about: consumers attach while there is a
handle of the gate, a session is used only by those who got it from the starting hook, and a gate is
dropped only when nothing holds it.  Everything else is left open: when hooks return and timers
ring, and which consumers accept a failure at what time.  `Move` lists what a step can do;
`step_move` says that every step is one of these moves.
-/

namespace Lifecycle.Gate

/-- An input, and which consumers accept a failure when it comes. -/
structure Occasion (γ κ : Type) where
  input : Input γ κ
  accepts : γ → Bool

namespace State

variable {γ κ : Type}

def isKnown (s : State γ κ) (i : Nat) : Bool :=
  match s.sessions[i]? with
  | none => false
  | some session => session.stage != .waiting

/-- The lease of a consumer, the task of a hook or the timer of a grace period holds the gate. -/
def isHeld (s : State γ κ) : Bool :=
  !s.roster.isEmpty || s.phase == .draining ||
    s.sessions.any (·.stage != .ended) || s.teardowns.any (·.stage != .ended)

def admits (s : State γ κ) : Input γ κ → Bool
  | .attach _ => !s.dropped
  | .update i _ | .complete i | .fail i _ => s.isKnown i
  | .drop => !s.isHeld
  | .release _ | .drainElapsed _ | .activate _ | .activated _ _ | .deactivate _
  | .deactivated _ _ => true

variable [Inhabited κ]

def take (s : State γ κ) (o : Occasion γ κ) : State γ κ × List (Effect γ κ) :=
  s.step o.accepts o.input

def orderly (s : State γ κ) : List (Occasion γ κ) → Bool
  | [] => true
  | o :: rest => s.admits o.input && (s.take o).1.orderly rest

def run (s : State γ κ) : List (Occasion γ κ) → State γ κ × List (Effect γ κ)
  | [] => (s, [])
  | o :: rest =>
      let (next, first) := s.take o
      let (last, later) := next.run rest
      (last, first ++ later)

theorem run_cons (s : State γ κ) (o : Occasion γ κ) (rest : List (Occasion γ κ)) :
    s.run (o :: rest) = (((s.take o).1.run rest).1, (s.take o).2 ++ ((s.take o).1.run rest).2) :=
  rfl

theorem orderly_cons (s : State γ κ) (o : Occasion γ κ) (rest : List (Occasion γ κ)) :
    s.orderly (o :: rest) = true ↔
      s.admits o.input = true ∧ (s.take o).1.orderly rest = true := by
  simp [orderly]

theorem run_append (s : State γ κ) (earlier later : List (Occasion γ κ)) :
    (s.run (earlier ++ later)).1 = ((s.run earlier).1.run later).1 := by
  induction earlier generalizing s with
  | nil => rfl
  | cons o rest ih => exact ih _

theorem orderly_append (s : State γ κ) (earlier later : List (Occasion γ κ)) :
    s.orderly (earlier ++ later) = true ↔
      s.orderly earlier = true ∧ (s.run earlier).1.orderly later = true := by
  induction earlier generalizing s with
  | nil => simp [orderly, run]
  | cons o rest ih =>
      rw [List.cons_append, orderly_cons, orderly_cons, ih, and_assoc]
      rfl

/-! ## The moves -/

section Moves

variable (accepts : γ → Bool)

inductive Outcome (s : State γ κ) (i : Nat) :
    Option ProducerError → State γ κ → List (Effect γ κ) → Prop
  | failed (e : ProducerError) (current : s.isCurrent i = true)
      (activating : s.phase = .activating) :
      Outcome s i (some e) (s.failLive accepts e).1 (s.failLive accepts e).2
  | deserted (current : s.isCurrent i = true) (activating : s.phase = .activating)
      (empty : s.roster.isEmpty = true) :
      Outcome s i none s.tearDown.1 (s.tearDown.2 ++ [.startTeardown s.teardowns.length])
  | active (current : s.isCurrent i = true) (activating : s.phase = .activating)
      (occupied : s.roster.isEmpty = false) :
      Outcome s i none { s with phase := .active }
        [.publish (s.event .producerActive (some s.roster.count))]
  | late (failure : Option ProducerError)
      (past : ¬(s.isCurrent i = true ∧ s.phase = .activating)) :
      Outcome s i failure s (failure.elim [] s.reportEffects)

def ActivationDue (s : State γ κ) (i : Nat) : Prop :=
  ∃ session, s.sessions[i]? = some session ∧ session.stage = .waiting ∧ s.activationAwaits i = []

def ActivationRuns (s : State γ κ) (i : Nat) : Prop :=
  ∃ session, s.sessions[i]? = some session ∧ session.stage = .running

def TeardownDue (s : State γ κ) (j : Nat) : Prop :=
  ∃ teardown, s.teardowns[j]? = some teardown ∧ teardown.stage = .waiting ∧ s.teardownAwaits j = []

def TeardownRuns (s : State γ κ) (j : Nat) : Prop :=
  ∃ teardown, s.teardowns[j]? = some teardown ∧ teardown.stage = .running

def Ignores (s : State γ κ) : Input γ κ → Prop
  | .attach _ | .drop => False
  | .release id => s.roster.find? id = none
  | .update i _ | .complete i => s.isCurrent i = false
  | .fail i _ => s.isCurrent i = false ∧ s.dropped = true
  | .drainElapsed epoch =>
      ¬(s.phase = .draining ∧ s.drainEpoch = epoch ∧ s.roster.isEmpty = true)
  | .activate i => ¬s.ActivationDue i
  | .activated i _ => ¬s.ActivationRuns i
  | .deactivate j => ¬s.TeardownDue j
  | .deactivated j _ => ¬s.TeardownRuns j

/-- What a step can do. -/
inductive Move (s : State γ κ) : Input γ κ → State γ κ → List (Effect γ κ) → Prop
  | refuse (input : Input γ κ) (ignored : s.Ignores input) : Move s input s []
  | begin (c : γ) (inactive : s.phase = .inactive) :
      Move s (.attach c) { s with roster := s.roster.insert c }.beginSession
        [.replay s.cache c,
          .publish (s.event .consumerAttached (some (s.roster.insert c).count)),
          .publish (s.event .producerActivating none), .startActivation s.sessions.length]
  | join (c : γ) (shared : s.phase = .activating ∨ s.phase = .active) :
      Move s (.attach c) { s with roster := s.roster.insert c }
        [.replay s.cache c,
          .publish (s.event .consumerAttached (some (s.roster.insert c).count))]
  | rejoin (c : γ) (draining : s.phase = .draining) :
      Move s (.attach c)
        { s with
          roster := s.roster.insert c, phase := .active, drainEpoch := s.drainEpoch + 1 }
        [.replay s.cache c, .endDrain,
          .publish (s.event .producerActive (some (s.roster.insert c).count)),
          .publish (s.event .consumerAttached (some (s.roster.insert c).count))]
  | part (id : ConsumerId) (c : γ) (attached : s.roster.find? id = some c)
      (stays : ¬((s.roster.erase id).isEmpty = true ∧ s.phase = .active)) :
      Move s (.release id) { s with roster := s.roster.erase id }
        [.publish (s.event .consumerDetached (some (s.roster.erase id).count)), .part c]
  | drain (id : ConsumerId) (c : γ) (grace : Span) (attached : s.roster.find? id = some c)
      (last : (s.roster.erase id).isEmpty = true) (active : s.phase = .active)
      (patient : s.grace = some grace) :
      Move s (.release id)
        { s with
          roster := s.roster.erase id, phase := .draining, drainEpoch := s.drainEpoch + 1 }
        [.beginDrain grace (s.drainEpoch + 1),
          .publish ((s.event .producerDraining none).withDelay grace),
          .publish (s.event .consumerDetached (some (s.roster.erase id).count)), .part c]
  | partLast (id : ConsumerId) (c : γ) (attached : s.roster.find? id = some c)
      (last : (s.roster.erase id).isEmpty = true) (active : s.phase = .active)
      (hasty : s.grace = none) :
      Move s (.release id) { s with roster := s.roster.erase id }.tearDown.1
        ({ s with roster := s.roster.erase id }.tearDown.2 ++
          [.publish (s.event .consumerDetached (some (s.roster.erase id).count)), .part c] ++
          [.startTeardown s.teardowns.length])
  | elapse (epoch : Nat) (draining : s.phase = .draining) (same : s.drainEpoch = epoch)
      (empty : s.roster.isEmpty = true) :
      Move s (.drainElapsed epoch) s.tearDown.1
        (s.tearDown.2 ++ [.startTeardown s.teardowns.length])
  | update (i : Nat) (f : κ → κ) (current : s.isCurrent i = true) :
      Move s (.update i f) { s with cache := f s.cache } []
  | complete (i : Nat) (current : s.isCurrent i = true) :
      Move s (.complete i) { s with roster := s.roster.clear }.tearDown.1
        (s.roster.members.map .close ++ { s with roster := s.roster.clear }.tearDown.2 ++
          [.publish (s.event .producerCompleted (some s.roster.members.length)),
            .startTeardown s.teardowns.length])
  | fail (i : Nat) (e : ProducerError) (current : s.isCurrent i = true) :
      Move s (.fail i e) (s.failLive accepts e).1 (s.failLive accepts e).2
  | failLate (i : Nat) (e : ProducerError) (stale : s.isCurrent i = false)
      (present : s.dropped = false) : Move s (.fail i e) s (s.reportEffects e)
  | call (i : Nat) (due : s.ActivationDue i) (uncancelled : s.isCancelled i = false) :
      Move s (.activate i) (s.setActivation i .running) [.callActivate i]
  | skip (i : Nat) (due : s.ActivationDue i) (cancelled : s.isCancelled i = true)
      {t : State γ κ} {effects : List (Effect γ κ)}
      (outcome : Outcome accepts (s.setActivation i .ended) i none t effects) :
      Move s (.activate i) t (.signal (.activationOver i) :: effects)
  | activated (i : Nat) (result : HookEnd) (runs : s.ActivationRuns i)
      {t : State γ κ} {effects : List (Effect γ κ)}
      (outcome : Outcome accepts (s.setActivation i .ended) i (HookEnd.failure result) t
        effects) :
      Move s (.activated i result) t (.signal (.activationOver i) :: effects)
  | deactivate (j : Nat) (due : s.TeardownDue j) :
      Move s (.deactivate j) (s.setTeardown j .running) [.callDeactivate j]
  | deactivated (j : Nat) (panic : Option String) (runs : s.TeardownRuns j) :
      Move s (.deactivated j panic) (s.setTeardown j .ended)
        (panic.elim [] (fun info =>
            s.reportEffects (.failed ("deactivation panicked: " ++ info))) ++
          [.signal (.teardownOver j), .publish (s.event .producerInactive none)])
  | drop : Move s .drop s.drop.1 s.drop.2

variable {accepts}

theorem attach_move (s : State γ κ) (c : γ) :
    Move accepts s (.attach c) (s.attach c).1 (s.attach c).2 := by
  have shared (h : s.phase = .activating ∨ s.phase = .active) : s.attach c =
      ({ s with roster := s.roster.insert c },
        [.replay s.cache c,
          .publish (s.event .consumerAttached (some (s.roster.insert c).count))]) := by
    cases h with
    | inl h => simp [attach, h]
    | inr h => simp [attach, h]
  cases hphase : s.phase with
  | inactive =>
      have hattach : s.attach c = ({ s with roster := s.roster.insert c }.beginSession,
          [.replay s.cache c,
            .publish (s.event .consumerAttached (some (s.roster.insert c).count)),
            .publish (s.event .producerActivating none),
            .startActivation s.sessions.length]) := by
        simp [attach, hphase]
      rw [hattach]
      exact .begin c hphase
  | activating =>
      rw [shared (.inl hphase)]
      exact .join c (.inl hphase)
  | active =>
      rw [shared (.inr hphase)]
      exact .join c (.inr hphase)
  | draining =>
      have hattach : s.attach c =
          ({ s with
              roster := s.roster.insert c, phase := .active, drainEpoch := s.drainEpoch + 1 },
            [.replay s.cache c, .endDrain,
              .publish (s.event .producerActive (some (s.roster.insert c).count)),
              .publish (s.event .consumerAttached (some (s.roster.insert c).count))]) := by
        simp [attach, hphase]
      rw [hattach]
      exact .rejoin c hphase

theorem release_move (s : State γ κ) (id : ConsumerId) :
    Move accepts s (.release id) (s.release id).1 (s.release id).2 := by
  cases hfind : s.roster.find? id with
  | none =>
      have hrelease : s.release id = (s, []) := by simp [release, hfind]
      rw [hrelease]
      exact .refuse _ hfind
  | some c =>
      by_cases hlast : (s.roster.erase id).isEmpty = true ∧ s.phase = .active
      · cases hgrace : s.grace with
        | none =>
            have hrelease : s.release id = ({ s with roster := s.roster.erase id }.tearDown.1,
                { s with roster := s.roster.erase id }.tearDown.2 ++
                  [.publish (s.event .consumerDetached (some (s.roster.erase id).count)),
                    .part c] ++ [.startTeardown s.teardowns.length]) := by
              simp [release, hfind, hlast.1, hlast.2, hgrace]
            rw [hrelease]
            exact .partLast id c hfind hlast.1 hlast.2 hgrace
        | some grace =>
            have hrelease : s.release id =
                ({ s with
                    roster := s.roster.erase id, phase := .draining,
                    drainEpoch := s.drainEpoch + 1 },
                  [.beginDrain grace (s.drainEpoch + 1),
                    .publish ((s.event .producerDraining none).withDelay grace),
                    .publish (s.event .consumerDetached (some (s.roster.erase id).count)),
                    .part c]) := by
              simp [release, hfind, hlast.1, hlast.2, hgrace]
            rw [hrelease]
            exact .drain id c grace hfind hlast.1 hlast.2 hgrace
      · have hstays : ((s.roster.erase id).isEmpty && s.phase == .active) = false := by
          simpa using hlast
        have hrelease : s.release id = ({ s with roster := s.roster.erase id },
            [.publish (s.event .consumerDetached (some (s.roster.erase id).count)),
              .part c]) := by
          simp [release, hfind, hstays]
        rw [hrelease]
        exact .part id c hfind hlast

theorem drainElapsed_move (s : State γ κ) (epoch : Nat) :
    Move accepts s (.drainElapsed epoch) (s.drainElapsed epoch).1 (s.drainElapsed epoch).2 := by
  unfold drainElapsed
  split
  · rename_i hready
    simp only [Bool.and_eq_true, beq_iff_eq] at hready
    exact .elapse epoch hready.1.1 hready.1.2 hready.2
  · rename_i hready
    exact .refuse _ (by simpa [Ignores, and_assoc] using hready)

theorem update_move (s : State γ κ) (i : Nat) (f : κ → κ) :
    Move accepts s (.update i f) (s.step accepts (.update i f)).1
      (s.step accepts (.update i f)).2 := by
  simp only [step]
  by_cases hcurrent : s.isCurrent i = true
  · rw [if_pos hcurrent]
    exact .update i f hcurrent
  · rw [if_neg hcurrent]
    exact .refuse _ (Bool.eq_false_iff.mpr hcurrent)

theorem complete_move (s : State γ κ) (i : Nat) :
    Move accepts s (.complete i) (s.complete i).1 (s.complete i).2 := by
  unfold complete
  by_cases hcurrent : s.isCurrent i = true
  · rw [if_pos hcurrent]
    exact .complete i hcurrent
  · rw [if_neg hcurrent]
    exact .refuse _ (Bool.eq_false_iff.mpr hcurrent)

theorem fail_move (s : State γ κ) (i : Nat) (e : ProducerError) :
    Move accepts s (.fail i e) (s.fail accepts i e).1 (s.fail accepts i e).2 := by
  unfold fail
  by_cases hcurrent : s.isCurrent i = true
  · rw [if_pos hcurrent]
    exact .fail i e hcurrent
  · rw [if_neg hcurrent]
    have hstale := Bool.eq_false_iff.mpr hcurrent
    cases hdropped : s.dropped with
    | true => exact .refuse _ ⟨hstale, hdropped⟩
    | false => exact .failLate i e hstale hdropped

theorem finishActivation_outcome (s : State γ κ) (i : Nat) (failure : Option ProducerError) :
    Outcome accepts s i failure (s.finishActivation accepts i failure).1
      (s.finishActivation accepts i failure).2 := by
  unfold finishActivation
  by_cases hcurrent : s.isCurrent i = true ∧ s.phase = .activating
  · rw [if_pos (by simpa using hcurrent)]
    cases failure with
    | some e => exact .failed e hcurrent.1 hcurrent.2
    | none =>
        cases hempty : s.roster.isEmpty with
        | true => exact .deserted hcurrent.1 hcurrent.2 hempty
        | false => exact .active hcurrent.1 hcurrent.2 hempty
  · rw [if_neg (by simpa using hcurrent)]
    cases failure with
    | some e => exact .late (some e) hcurrent
    | none => exact .late none hcurrent

theorem activate_move (s : State γ κ) (i : Nat) :
    Move accepts s (.activate i) (s.activate accepts i).1 (s.activate accepts i).2 := by
  unfold activate
  cases hget : s.sessions[i]? with
  | none => exact .refuse _ (by simp [Ignores, ActivationDue, hget])
  | some session =>
      by_cases hready : session.stage = .waiting ∧ s.activationAwaits i = []
      · simp only [beq_iff_eq.mpr hready.1, hready.2, List.isEmpty_nil, Bool.and_self, if_true]
        have hdue : s.ActivationDue i := ⟨session, hget, hready⟩
        have hsame : s.isCancelled i = session.cancelled := by simp [isCancelled, hget]
        cases hcancelled : session.cancelled with
        | true => exact .skip i hdue (hsame.trans hcancelled) (finishActivation_outcome _ i none)
        | false => exact .call i hdue (hsame.trans hcancelled)
      · have hbusy : (session.stage == .waiting && (s.activationAwaits i).isEmpty) = false := by
          simpa using hready
        simp only [hbusy, Bool.false_eq_true, if_false]
        exact .refuse _ (by simpa [Ignores, ActivationDue, hget] using hready)

theorem activated_move (s : State γ κ) (i : Nat) (result : HookEnd) :
    Move accepts s (.activated i result) (s.activated accepts i result).1
      (s.activated accepts i result).2 := by
  unfold activated
  cases hget : s.sessions[i]? with
  | none => exact .refuse _ (by simp [Ignores, ActivationRuns, hget])
  | some session =>
      by_cases hrunning : session.stage = .running
      · simp only [beq_iff_eq.mpr hrunning, if_true]
        exact .activated i result ⟨session, hget, hrunning⟩ (finishActivation_outcome _ i _)
      · simp only [beq_eq_false_iff_ne.mpr hrunning, Bool.false_eq_true, if_false]
        exact .refuse _ (by simpa [Ignores, ActivationRuns, hget] using hrunning)

theorem deactivate_move (s : State γ κ) (j : Nat) :
    Move accepts s (.deactivate j) (s.deactivate j).1 (s.deactivate j).2 := by
  unfold deactivate
  cases hget : s.teardowns[j]? with
  | none => exact .refuse _ (by simp [Ignores, TeardownDue, hget])
  | some teardown =>
      by_cases hready : teardown.stage = .waiting ∧ s.teardownAwaits j = []
      · simp only [beq_iff_eq.mpr hready.1, hready.2, List.isEmpty_nil, Bool.and_self, if_true]
        exact .deactivate j ⟨teardown, hget, hready⟩
      · have hbusy : (teardown.stage == .waiting && (s.teardownAwaits j).isEmpty) = false := by
          simpa using hready
        simp only [hbusy, Bool.false_eq_true, if_false]
        exact .refuse _ (by simpa [Ignores, TeardownDue, hget] using hready)

theorem deactivated_move (s : State γ κ) (j : Nat) (panic : Option String) :
    Move accepts s (.deactivated j panic) (s.deactivated j panic).1
      (s.deactivated j panic).2 := by
  unfold deactivated
  cases hget : s.teardowns[j]? with
  | none => exact .refuse _ (by simp [Ignores, TeardownRuns, hget])
  | some teardown =>
      by_cases hrunning : teardown.stage = .running
      · simp only [beq_iff_eq.mpr hrunning, if_true]
        cases panic with
        | none => exact .deactivated j none ⟨teardown, hget, hrunning⟩
        | some info => exact .deactivated j (some info) ⟨teardown, hget, hrunning⟩
      · simp only [beq_eq_false_iff_ne.mpr hrunning, Bool.false_eq_true, if_false]
        exact .refuse _ (by simpa [Ignores, TeardownRuns, hget] using hrunning)

theorem step_move (s : State γ κ) (input : Input γ κ) :
    Move accepts s input (s.step accepts input).1 (s.step accepts input).2 := by
  cases input with
  | attach c => exact attach_move s c
  | release id => exact release_move s id
  | update i f => exact update_move s i f
  | complete i => exact complete_move s i
  | fail i e => exact fail_move s i e
  | drainElapsed epoch => exact drainElapsed_move s epoch
  | activate i => exact activate_move s i
  | activated i result => exact activated_move s i result
  | deactivate j => exact deactivate_move s j
  | deactivated j panic => exact deactivated_move s j panic
  | drop => exact .drop

theorem move_of_step {s t : State γ κ} {input : Input γ κ}
    (step : t = (s.step accepts input).1) : Move accepts s input t (s.step accepts input).2 := by
  rw [step]
  exact step_move s input

theorem take_move (s : State γ κ) (o : Occasion γ κ) :
    Move o.accepts s o.input (s.take o).1 (s.take o).2 :=
  step_move s o.input

end Moves

end State

end Lifecycle.Gate
