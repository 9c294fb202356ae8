import Lifecycle.Gate.State

/-!
# The steps of a gate

A gate takes one input at a time: what consumers and sessions ask of it, the end of a grace period,
and the turns of the tasks that call its hooks.  A step changes the state and has effects, in order.
An input that does not fit the state does nothing.
-/

namespace Lifecycle.Gate

inductive Signal where
  | sessionOver (i : Nat)
  | activationOver (i : Nat)
  | teardownOver (j : Nat)
  deriving DecidableEq, Repr

inductive HookEnd where
  | returned
  | refused (e : ProducerError)
  | panicked (info : String)
  deriving DecidableEq, Repr

inductive Input (γ κ : Type) where
  | attach (c : γ)
  | release (id : ConsumerId)
  | update (i : Nat) (f : κ → κ)
  | complete (i : Nat)
  | fail (i : Nat) (e : ProducerError)
  | drainElapsed (epoch : Nat)
  | activate (i : Nat)
  | activated (i : Nat) (result : HookEnd)
  | deactivate (j : Nat)
  | deactivated (j : Nat) (panic : Option String)
  | drop

/-- A failure is offered to consumers that are no longer attached; `close` lets a consumer go with
its session, and `part` one that leaves. -/
inductive Effect (γ κ : Type) where
  | replay (cache : κ) (c : γ)
  | offer (c : γ) (e : ProducerError)
  | close (c : γ)
  | part (c : γ)
  | publish (e : Event)
  | report (e : ProducerError)
  | signal (s : Signal)
  | startActivation (i : Nat)
  | startTeardown (j : Nat)
  | callActivate (i : Nat)
  | callDeactivate (j : Nat)
  | beginDrain (grace : Span) (epoch : Nat)
  | endDrain

namespace State

variable {γ κ : Type}

def event (s : State γ κ) (kind : EventKind) (consumers : Option Nat) : Event :=
  { kind, source := some s.name, consumers }

/-- A failure that no consumer was given. -/
def reportEffects (s : State γ κ) (e : ProducerError) : List (Effect γ κ) :=
  [.publish { s.event .errorReported none with error := some e.text }, .report e]

def cancelCurrent (s : State γ κ) : List Session :=
  s.current.toList.foldl (fun t i => t.modify i fun x => { x with cancelled := true }) s.sessions

/-- Ends the live session.  The new teardown has the number `s.teardowns.length`. -/
def tearDown [Inhabited κ] (s : State γ κ) : State γ κ × List (Effect γ κ) :=
  ({ s with
      phase := .inactive
      generation := s.generation + 1
      drainEpoch := s.drainEpoch + 1
      cache := default
      current := none
      lastTeardown := some s.teardowns.length
      sessions := s.cancelCurrent
      teardowns := s.teardowns ++ [{ session := s.current, after := s.lastTeardown }] },
    s.current.toList.map fun i => .signal (.sessionOver i))

/-- Begins a session.  It has the number `s.sessions.length`. -/
def beginSession (s : State γ κ) : State γ κ :=
  { s with
    phase := .activating
    generation := s.generation + 1
    current := some s.sessions.length
    sessions := s.sessions ++ [{ generation := s.generation + 1, after := s.lastTeardown }] }

def attach (s : State γ κ) (c : γ) : State γ κ × List (Effect γ κ) :=
  let joined := { s with roster := s.roster.insert c }
  let count := some joined.roster.count
  let greeting : List (Effect γ κ) := [.replay s.cache c]
  match s.phase with
  | .inactive =>
      (joined.beginSession,
        greeting ++ [.publish (s.event .consumerAttached count),
          .publish (s.event .producerActivating none), .startActivation s.sessions.length])
  | .draining =>
      ({ joined with phase := .active, drainEpoch := s.drainEpoch + 1 },
        greeting ++ [.endDrain, .publish (s.event .producerActive count),
          .publish (s.event .consumerAttached count)])
  | .activating | .active =>
      (joined, greeting ++ [.publish (s.event .consumerAttached count)])

def release [Inhabited κ] (s : State γ κ) (id : ConsumerId) : State γ κ × List (Effect γ κ) :=
  match s.roster.find? id with
  | none => (s, [])
  | some c =>
      let left := { s with roster := s.roster.erase id }
      let farewell : List (Effect γ κ) :=
        [.publish (s.event .consumerDetached (some left.roster.count)), .part c]
      if left.roster.isEmpty && s.phase == .active then
        match s.grace with
        | none =>
            let (down, effects) := left.tearDown
            (down, effects ++ farewell ++ [.startTeardown s.teardowns.length])
        | some grace =>
            let epoch := s.drainEpoch + 1
            ({ left with phase := .draining, drainEpoch := epoch },
              [.beginDrain grace epoch,
                .publish ((s.event .producerDraining none).withDelay grace)] ++ farewell)
      else (left, farewell)

def drainElapsed [Inhabited κ] (s : State γ κ) (epoch : Nat) : State γ κ × List (Effect γ κ) :=
  if s.phase == .draining && s.drainEpoch == epoch && s.roster.isEmpty then
    let (down, effects) := s.tearDown
    (down, effects ++ [.startTeardown s.teardowns.length])
  else (s, [])

def complete [Inhabited κ] (s : State γ κ) (i : Nat) : State γ κ × List (Effect γ κ) :=
  if s.isCurrent i then
    let closed := s.roster.members
    let (down, effects) := { s with roster := s.roster.clear }.tearDown
    (down, closed.map .close ++ effects ++
      [.publish (s.event .producerCompleted (some closed.length)),
        .startTeardown s.teardowns.length])
  else (s, [])

/-- Offers the failure to all consumers and ends the session.  A failure that nobody accepts is
reported. -/
def failLive [Inhabited κ] (accepts : γ → Bool) (s : State γ κ) (e : ProducerError) :
    State γ κ × List (Effect γ κ) :=
  let offered := s.roster.members
  let delivered := offered.countP accepts
  let (down, effects) := { s with roster := s.roster.clear }.tearDown
  (down, offered.map (.offer · e) ++ effects ++
    [.publish { s.event .producerFailed (some delivered) with error := some e.text }] ++
    (if delivered = 0 then s.reportEffects e else []) ++ [.startTeardown s.teardowns.length])

def fail [Inhabited κ] (accepts : γ → Bool) (s : State γ κ) (i : Nat) (e : ProducerError) :
    State γ κ × List (Effect γ κ) :=
  if s.isCurrent i then s.failLive accepts e
  else if s.dropped then (s, [])
  else (s, s.reportEffects e)

/-- The result of starting the producer reaches the gate.  A session that is over by then has
nobody left to see a failure. -/
def finishActivation [Inhabited κ] (accepts : γ → Bool) (s : State γ κ) (i : Nat)
    (failure : Option ProducerError) : State γ κ × List (Effect γ κ) :=
  if s.isCurrent i && s.phase == .activating then
    match failure with
    | some e => s.failLive accepts e
    | none =>
        if s.roster.isEmpty then
          let (down, effects) := s.tearDown
          (down, effects ++ [.startTeardown s.teardowns.length])
        else
          ({ s with phase := .active },
            [.publish (s.event .producerActive (some s.roster.count))])
  else
    match failure with
    | some e => (s, s.reportEffects e)
    | none => (s, [])

/-- The hook that the session still has to wait for before its producer is started, as a signal. -/
def activationAwaits (s : State γ κ) (i : Nat) : List Signal :=
  match s.sessions[i]? with
  | none => []
  | some session =>
      (session.after.toList.filter fun j => !s.teardownOver j).map .teardownOver

def teardownAwaits (s : State γ κ) (j : Nat) : List Signal :=
  match s.teardowns[j]? with
  | none => []
  | some teardown =>
      (teardown.session.toList.filter fun i => !s.activationOver i).map .activationOver ++
        (teardown.after.toList.filter fun k => !s.teardownOver k).map .teardownOver

def setActivation (s : State γ κ) (i : Nat) (stage : Stage) : State γ κ :=
  { s with sessions := s.sessions.modify i fun x => { x with stage } }

def setTeardown (s : State γ κ) (j : Nat) (stage : Stage) : State γ κ :=
  { s with teardowns := s.teardowns.modify j fun x => { x with stage } }

/-- The starting hook is called unless the session is over already. -/
def activate [Inhabited κ] (accepts : γ → Bool) (s : State γ κ) (i : Nat) :
    State γ κ × List (Effect γ κ) :=
  match s.sessions[i]? with
  | none => (s, [])
  | some session =>
      if session.stage == .waiting && (s.activationAwaits i).isEmpty then
        if session.cancelled then
          let (next, effects) := (s.setActivation i .ended).finishActivation accepts i none
          (next, .signal (.activationOver i) :: effects)
        else (s.setActivation i .running, [.callActivate i])
      else (s, [])

def HookEnd.failure : HookEnd → Option ProducerError
  | .returned => none
  | .refused e => some e
  | .panicked info => some (.activation ("panicked: " ++ info))

def activated [Inhabited κ] (accepts : γ → Bool) (s : State γ κ) (i : Nat) (result : HookEnd) :
    State γ κ × List (Effect γ κ) :=
  match s.sessions[i]? with
  | none => (s, [])
  | some session =>
      if session.stage == .running then
        let (next, effects) :=
          (s.setActivation i .ended).finishActivation accepts i (HookEnd.failure result)
        (next, .signal (.activationOver i) :: effects)
      else (s, [])

def deactivate (s : State γ κ) (j : Nat) : State γ κ × List (Effect γ κ) :=
  match s.teardowns[j]? with
  | none => (s, [])
  | some teardown =>
      if teardown.stage == .waiting && (s.teardownAwaits j).isEmpty then
        (s.setTeardown j .running, [.callDeactivate j])
      else (s, [])

def deactivated (s : State γ κ) (j : Nat) (panic : Option String) :
    State γ κ × List (Effect γ κ) :=
  match s.teardowns[j]? with
  | none => (s, [])
  | some teardown =>
      if teardown.stage == .running then
        (s.setTeardown j .ended,
          (match panic with
            | none => []
            | some info => s.reportEffects (.failed ("deactivation panicked: " ++ info))) ++
          [.signal (.teardownOver j), .publish (s.event .producerInactive none)])
      else (s, [])

def drop (s : State γ κ) : State γ κ × List (Effect γ κ) :=
  ({ s with
      dropped := true
      current := none
      sessions := s.cancelCurrent },
    s.current.toList.map fun i => .signal (.sessionOver i))

/-- One step.  `accepts` tells which consumers accept a failure. -/
def step [Inhabited κ] (accepts : γ → Bool) (s : State γ κ) :
    Input γ κ → State γ κ × List (Effect γ κ)
  | .attach c => s.attach c
  | .release id => s.release id
  | .update i f => (if s.isCurrent i then { s with cache := f s.cache } else s, [])
  | .complete i => s.complete i
  | .fail i e => s.fail accepts i e
  | .drainElapsed epoch => s.drainElapsed epoch
  | .activate i => s.activate accepts i
  | .activated i result => s.activated accepts i result
  | .deactivate j => s.deactivate j
  | .deactivated j panic => s.deactivated j panic
  | .drop => s.drop

end State

end Lifecycle.Gate
