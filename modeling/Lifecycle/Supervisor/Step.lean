import Lifecycle.Supervisor.State

/-!
# The steps of a supervisor

A supervisor takes one input at a time: what its users ask of it and what becomes of its tasks.  A
step changes the state and has effects, in order.  An input that does not fit the state does
nothing.
-/

namespace Lifecycle.Supervisor

inductive Signal where
  | cancelled (i : Nat)
  | ended (i : Nat)
  deriving DecidableEq, Repr

inductive Input where
  | launch (key : Value)
  | cancel (key : Value)
  | close
  | begin (i : Nat)
  | finish (i : Nat) (r : Except TaskError Unit)
  | abort (i : Nat)
  | panic (i : Nat) (info : String)
  | release (i : Nat)

inductive Effect where
  | publish (e : Event)
  | signal (s : Signal)
  | start (i : Nat)
  | callBody (i : Nat)
  | startRelease (i : Nat)
  | resolve (i : Nat) (r : Result)

namespace State

def modifyTask (s : State) (i : Nat) (f : Task → Task) : State :=
  { s with tasks := s.tasks.modify i f }

def event (s : State) (kind : EventKind) (key : Value) (i : Nat) : Event :=
  { kind, source := some s.name, key := some key.shown, taskId := some (taskId i) }

def cancelTask (s : State) (i : Nat) : State × List Effect :=
  if s.isCancelled i then (s, [])
  else (s.modifyTask i fun t => { t with cancelled := true }, [.signal (.cancelled i)])

def setOwner (s : State) (key : Value) (i : Nat) : State :=
  { s with owners := s.owners.filter (fun o => o.1 ≠ key) ++ [(key, i)] }

def launch (s : State) (key : Value) : State × List Effect :=
  let i := s.tasks.length
  let task : Task := { key, previous := s.owner? key, cancelled := s.closed }
  let owned := { s with tasks := s.tasks ++ [task] }.setOwner key i
  let launched : List Effect := [.publish (s.event .taskLaunched key i), .start i]
  match task.previous with
  | none => (owned, launched)
  | some p =>
      let (asked, effects) := owned.cancelTask p
      (asked, effects ++ .publish (s.event .taskCancelRequested key p) :: launched)

def cancel (s : State) (key : Value) : State × List Effect :=
  match s.owner? key with
  | none => (s, [])
  | some i =>
      let (asked, effects) := s.cancelTask i
      (asked, effects ++ [.publish (s.event .taskCancelRequested key i)])

/-- Cancels all tasks, the latest first. -/
def close (s : State) : State × List Effect :=
  (List.range s.tasks.length).reverse.foldl
    (fun (s, effects) i =>
      let (s, more) := s.cancelTask i
      (s, effects ++ more))
    ({ s with closed := true }, [])

/-- Ends a task: its key is released unless another task owns it by now. -/
def endTask (s : State) (i : Nat) : State × List Effect :=
  ({ s.modifyTask i fun t => { t with stage := .ended } with
      owners := s.owners.filter fun o => o.2 ≠ i },
    [.signal (.ended i)])

def begin (s : State) (i : Nat) : State × List Effect :=
  match s.tasks[i]? with
  | none => (s, [])
  | some task =>
      if task.stage == .waiting && (s.awaits i).isNone then
        if task.cancelled then
          let (next, effects) := s.endTask i
          (next, .publish (s.event .taskSkipped task.key i) :: effects ++
            [.resolve i (.returned (.ok .skipped))])
        else
          (s.modifyTask i fun t => { t with stage := .running },
            [.publish (s.event .taskStarted task.key i), .callBody i])
      else (s, [])

/-- How the end of a body counts, as an event and as a result. -/
def verdict (s : State) (i : Nat) (task : Task) (r : Except TaskError Unit) :
    Event × Except TaskError Exit :=
  match r with
  | .ok () =>
      if task.cancelled then (s.event .taskCancelled task.key i, .ok .cancelled)
      else (s.event .taskFinished task.key i, .ok .completed)
  | .error e =>
      if e.isCancellation then (s.event .taskCancelled task.key i, .ok .cancelled)
      else ({ s.event .taskFailed task.key i with error := some e.message }, .error e)

def finish (s : State) (i : Nat) (r : Except TaskError Unit) : State × List Effect :=
  match s.tasks[i]? with
  | none => (s, [])
  | some task =>
      if task.stage == .running then
        let (e, result) := s.verdict i task r
        let (next, effects) := s.endTask i
        (next, .publish e :: effects ++ [.resolve i (.returned result)])
      else (s, [])

def panic (s : State) (i : Nat) (info : String) : State × List Effect :=
  match s.tasks[i]? with
  | none => (s, [])
  | some task =>
      if task.stage == .running then
        let (next, effects) := s.endTask i
        (next, effects ++ [.resolve i (.panicked info)])
      else (s, [])

/-- A dropped task ends at once unless its predecessor has not ended. -/
def abort (s : State) (i : Nat) : State × List Effect :=
  match s.tasks[i]? with
  | none => (s, [])
  | some task =>
      match task.stage with
      | .waiting =>
          if (s.awaits i).isNone then
            let (next, effects) := s.endTask i
            (next, effects ++ [.resolve i .aborted])
          else
            (s.modifyTask i fun t => { t with stage := .orphaned },
              [.startRelease i, .resolve i .aborted])
      | .running =>
          let (next, effects) := s.endTask i
          (next, effects ++ [.resolve i .aborted])
      | .orphaned | .ended => (s, [])

def release (s : State) (i : Nat) : State × List Effect :=
  match s.tasks[i]? with
  | none => (s, [])
  | some task =>
      if task.stage == .orphaned && (s.awaits i).isNone then s.endTask i else (s, [])

def step (s : State) : Input → State × List Effect
  | .launch key => s.launch key
  | .cancel key => s.cancel key
  | .close => s.close
  | .begin i => s.begin i
  | .finish i r => s.finish i r
  | .abort i => s.abort i
  | .panic i info => s.panic i info
  | .release i => s.release i

end State

end Lifecycle.Supervisor
