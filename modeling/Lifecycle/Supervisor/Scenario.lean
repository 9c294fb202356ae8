import Lifecycle.Bus
import Lifecycle.Resource.Cell
import Lifecycle.Supervisor.Hosting

/-!
# Scenarios for supervisors and resources

A scenario drives one supervisor step by step, and with it, if asked for, a manager that loads
resources through the supervisor.  Bodies follow scripts.
-/

namespace Lifecycle.Supervisor.Scenario

open Resource (Cell Load Watcher)

inductive StreamItem where
  | pause (p : Pause)
  | outcome (o : Outcome Value)

structure Launch (ι : Type) where
  key : Value
  name : String
  body : List ι
  resource : Option String
  policy : Option (Option Value × Bool)

inductive Item where
  | pause (p : Pause)
  | untilCancelled
  | sleepOrCancel (ms : Nat)
  | untilOrCancel (deadline : Nat)
  | log (text : String)
  | token
  | yield (times : Nat)
  | launch (key : Value) (name : String) (body : List Item) (resource : Option String)
      (policy : Option (Option Value × Bool))
  | cancel (key : Value)
  | owned (key : Value)
  | giveUp (e : TaskError)
  | panic (p : Panic)
  | set (o : Outcome Value)
  | get
  | data
  | report (e : TaskError)
  | emitAll (items : List StreamItem)

inductive Note where
  | start
  | ended
  | sawCancel
  | slept
  | logged (text : String)
  | token (cancelled : Bool)
  | launched (accepted : Bool)
  | cancelled (found : Option Bool)
  | owned (found : Option Bool)
  | gaveUp
  | outcome (o : Outcome Value)
  | data (d : Option Value)
  | emitted
  | done

inductive Signal where
  | task (s : Supervisor.Signal)
  | latch (name : String)
  | cell (c : Nat)
  deriving DecidableEq, Repr

/-- A launched body: its script and the load that it carries out, with the cell it works on. -/
structure Body where
  name : String
  rest : List Item
  load : Option (Nat × Load Value) := none

inductive Task where
  | program (p : Program Body)
  | waiter (name : String) (i : Nat)
  | watcher (name : String) (cell : Nat) (v : Watcher)

structure World where
  executor : Executor Signal Task := {}
  supervisor : State
  bus : Option Bus
  receiver : Receiver := ⟨0⟩
  managed : Bool
  parented : Bool
  owned : Bool := true
  clones : Nat := 0
  bodies : List Body := []
  results : List (Nat × Result) := []
  shownResults : List Nat := []
  handles : List (String × Nat) := []
  cells : List (Cell Value) := []
  resources : List (String × Nat) := []
  opened : List String := []
  notes : List (String × Nat × Note) := []
  sights : List (String × Nat × Option (Outcome Value)) := []
  reports : List Report := []

instance : HasExecutor World Signal Task where
  executor := World.executor
  withExecutor w executor := { w with executor }

instance : Hosting World Signal Task Body where
  toSignal := .task
  toTask := .program
  state := World.supervisor
  withState w supervisor := { w with supervisor }
  publish w e := { w with bus := w.bus.map (·.publish e) }
  resolve w i r := { w with results := w.results ++ [(i, r)] }

namespace World

def note (w : World) (name : String) (n : Note) : World :=
  { w with notes := w.notes ++ [(name, w.executor.now, n)] }

def cell (w : World) (c : Nat) : Cell Value := (w.cells[c]?).getD {}

def modifyCell (w : World) (c : Nat) (f : Cell Value → Cell Value) : World :=
  HasExecutor.signal { w with cells := w.cells.modify c f } (.cell c)

def reportFor (w : World) (i : Nat) (e : TaskError) : World :=
  match w.supervisor.tasks[i]? with
  | none => w
  | some task => { w with reports := w.reports ++ [Resource.report w.supervisor.name task.key e] }

def cellNamed (w : World) (name : String) : Nat × World :=
  match w.resources.lookup name with
  | some c => (c, w)
  | none =>
      let c := w.cells.length
      (c, { w with cells := w.cells ++ [{}], resources := w.resources ++ [(name, c)] })

def launch (w : World) (key : Value) (name : String) (body : List Item) (resource : Option String)
    (policy : Option (Option Value × Bool)) : World × Bool :=
  if w.owned && (resource.isNone || w.managed) then
    let (load, w) := match resource with
      | none => (none, w)
      | some r =>
          let (c, w) := w.cellNamed r
          let load : Load Value := match policy with
            | none => Load.ofCell (w.cell c)
            | some (seed, keepsData) => { seed, keepsData }
          (some (c, load), w)
    let w := { w with bodies := w.bodies ++ [{ name, rest := body, load }] }
    (Hosting.input w (.launch key), true)
  else (w, false)

def cancel (w : World) (key : Value) : World × Option Bool :=
  if w.owned then (Hosting.input w (.cancel key), some (w.supervisor.isOwned key)) else (w, none)

def owns (w : World) (key : Value) : Option Bool :=
  if w.owned then some (w.supervisor.isOwned key) else none

end World

inductive Stop where
  | gaveUp (e : TaskError)
  | panicked (info : String)

/-- One item of a stream of outcomes that is forwarded to a cell; errors are reported first. -/
def forwardItem (i c : Nat) (w : World) : StreamItem → World × Reaction Signal StreamItem Empty
  | .pause p => (w, p.react w.executor.now w.opened .pause .latch)
  | .outcome o =>
      let (error, cell) := Resource.forward (w.cell c) o
      let w := error.elim w (w.reportFor i)
      (w.modifyCell c fun _ => cell, .proceed)

def forward (w : World) (i c : Nat) (items : List StreamItem) :
    World × Reaction Signal Item Stop :=
  if w.supervisor.isCancelled i then (w, .proceed)
  else
    match runScript (forwardItem i c) w items with
    | (w, .suspended rest signals deadline) =>
        (w, .suspend (.emitAll rest) (.task (.cancelled i) :: signals) deadline)
    | (w, _) => (w, .proceed)

def act (i : Nat) (name : String) (load : Option (Nat × Load Value)) (w : World) :
    Item → World × Reaction Signal Item Stop
  | .pause p => (w, p.react w.executor.now w.opened .pause .latch)
  | .untilCancelled =>
      if w.supervisor.isCancelled i then (w.note name .sawCancel, .proceed)
      else (w, .suspend .untilCancelled [.task (.cancelled i)] none)
  | .sleepOrCancel ms =>
      if w.supervisor.isCancelled i then (w.note name .sawCancel, .proceed)
      else if ms = 0 then (w.note name .slept, .proceed)
      else
        let deadline := w.executor.now + ms
        (w, .suspend (.untilOrCancel deadline) [.task (.cancelled i)] (some deadline))
  | .untilOrCancel deadline =>
      if w.supervisor.isCancelled i then (w.note name .sawCancel, .proceed)
      else if deadline ≤ w.executor.now then (w.note name .slept, .proceed)
      else (w, .suspend (.untilOrCancel deadline) [.task (.cancelled i)] (some deadline))
  | .log text => (w.note name (.logged text), .proceed)
  | .token => (w.note name (.token (w.supervisor.isCancelled i)), .proceed)
  | .yield 0 => (w, .proceed)
  | .yield (n + 1) => (w, .giveWay (.yield n))
  | .launch key other body resource policy =>
      let (w, accepted) := w.launch key other body resource policy
      (w.note name (.launched accepted), .proceed)
  | .cancel key =>
      let (w, found) := w.cancel key
      (w.note name (.cancelled found), .proceed)
  | .owned key => (w.note name (.owned (w.owns key)), .proceed)
  | .giveUp e => (w.note name .gaveUp, .finish (.gaveUp e))
  | .panic p => (w, .finish (.panicked p.info))
  | .set o =>
      match load with
      | none => (w, .proceed)
      | some (c, _) => (w.modifyCell c (·.set o), .proceed)
  | .get =>
      match load with
      | none => (w, .proceed)
      | some (c, _) => (w.note name (.outcome (w.cell c).get), .proceed)
  | .data =>
      match load with
      | none => (w, .proceed)
      | some (c, _) => (w.note name (.data (w.cell c).data), .proceed)
  | .report e =>
      match load with
      | none => (w, .proceed)
      | some _ => (w.reportFor i e, .proceed)
  | .emitAll items =>
      match load with
      | none => (w, .proceed)
      | some (c, _) =>
          match forward w i c items with
          | (w, .proceed) => (w.note name .emitted, .proceed)
          | pending => pending

def conclude (w : World) (i : Nat) (load : Option (Nat × Load Value))
    (r : Except TaskError Unit) : World × BodyTurn Signal Body :=
  match load with
  | none => (w, .ended r)
  | some (c, l) =>
      match l.conclude (w.cell c) r with
      | (none, _, r) => (w, .ended r)
      | (some e, cell, r) => ((w.reportFor i e).modifyCell c fun _ => cell, .ended r)

def runBody (w : World) (i : Nat) (body : Body) : World × BodyTurn Signal Body :=
  match runScript (act i body.name body.load) w body.rest with
  | (w, .completed) => conclude (w.note body.name .ended) i body.load (.ok ())
  | (w, .finished (.gaveUp e)) => conclude w i body.load (.error e)
  | (w, .finished (.panicked info)) => (w, .panicked info)
  | (w, .suspended rest signals deadline) => (w, .waiting { body with rest } signals deadline)
  | (w, .gaveWay rest) => (w, .yielding { body with rest })

def callBody (w : World) (i : Nat) : World × Body :=
  let body := (w.bodies[i]?).getD { name := "", rest := [] }
  let w := match body.load with
    | none => w
    | some (c, l) => w.modifyCell c l.start
  (w.note body.name .start, body)

instance : Bodied World Signal Task Body where
  callBody := callBody
  runBody := runBody
  joined w
    | .cancelAll _ => w.note "cancel_all" .done
    | .waitIdle _ => w.note "wait_idle" .done
    | _ => w

namespace World

def cellOf (w : World) : Task → Option Nat
  | .program (.supervised i none) => (w.bodies[i]?.bind Body.load).map Prod.fst
  | .program (.supervised _ (some body)) => body.load.map Prod.fst
  | _ => none

def holdsSupervisor : Task → Bool
  | .program (.cancelAll _) | .program (.waitIdle _) => true
  | _ => false

/-- Closes the cells that nobody can write to any more. -/
def closeCells (w : World) : World :=
  let held := w.resources.map Prod.snd ++ w.executor.tasks.filterMap fun t => w.cellOf t.2
  (List.range w.cells.length).foldl (fun w c =>
    if held.contains c || (w.cell c).closed then w
    else w.modifyCell c fun cell => { cell with closed := true }) w

/-- Ends the context of the tasks once the last handle of the supervisor is gone. -/
def closeSupervisor (w : World) : World :=
  if w.owned || w.clones != 0 || w.supervisor.closed ||
      w.executor.tasks.any fun t => holdsSupervisor t.2 then w
  else Hosting.input w .close

def tidy (w : World) : World := w.closeSupervisor.closeCells

def watch (w : World) (name : String) (c : Nat) (v : Watcher) : World × Rest Signal Task :=
  let see (o : Option (Outcome Value)) : World :=
    { w with sights := w.sights ++ [(name, w.executor.now, o)] }
  match v.look (w.cell c) with
  | (.nothing, v) => (w, .waiting (.watcher name c v) [.cell c] none)
  | (.closed, _) => (see none, .ended)
  | (.outcome o, v) =>
      let w := see (some o)
      if (w.cell c).closed then
        ({ w with sights := w.sights ++ [(name, w.executor.now, none)] }, .ended)
      else (w, .waiting (.watcher name c v) [.cell c] none)

end World

instance : Hosted World Signal Task where
  turn w _
    | .program p => Bodied.turn w p
    | .waiter name i =>
        if w.supervisor.isEnded i then (w.note name .done, .ended)
        else (w, .waiting (.waiter name i) [.task (.ended i)] none)
    | .watcher name c v => w.watch name c v
  discard w _
    | .program p => Bodied.discard w p
    | _ => w
  tidy := World.tidy

inductive Step where
  | launch (key : Value) (name : String) (body : List Item) (resource : Option String)
      (policy : Option (Option Value × Bool))
  | cancel (key : Value)
  | owned (key : Value)
  | owner (key : Value) (name : Option String)
  | handle (name : String)
  | wait (name : String)
  | cancelAll
  | waitIdle
  | abort (name : String)
  | cancelParent
  | clone
  | dropClone
  | dropAll
  | debug
  | newResource (name : String) (o : Outcome Value)
  | set (name : String) (o : Outcome Value)
  | dropResource (name : String)
  | debugResource (name : String)
  | subscribe (name watcher : String)
  | reportError (o : Outcome Value)
  | advance (ms : Nat)
  | settle
  | release (latch : String)

inductive Answer where
  | nothing
  | flag (b : Bool)
  | count (n : Nat)
  | found (f : Option Bool)
  | handle (id : Nat) (cancelled finished : Bool)
  | dropped (supervisor manager : Bool)
  | shown (supervisor manager : Option String)
  | text (s : String)

/-- What can be seen after a step.  Lists hold what is new since the step before. -/
structure Observation where
  time : Nat
  answer : Answer
  keys : Option (List Value)
  notes : List (String × Nat × Note)
  events : List Event
  finished : List (String × Result)
  resources : List (String × Outcome Value)
  sights : List (String × Nat × Option (Outcome Value))
  reports : List Report

namespace World

def viewTask (w : World) (i : Nat) : Answer :=
  .handle (State.taskId i) (w.supervisor.isCancelled i) (w.supervisor.isEnded i)

def keep (w : World) (name : String) (i : Nat) : World :=
  { w with handles := w.handles.filter (·.1 != name) ++ [(name, i)] }

def latestTask (w : World) (name : String) : Option Nat :=
  (w.bodies.zipIdx.filter fun b => b.1.name == name).getLast?.map Prod.snd

def thread? (w : World) (i : Nat) : Option TaskId :=
  (w.executor.tasks.find? fun t => match t.2 with
    | .program (.supervised j _) => i == j
    | _ => false).map Prod.fst

def abort (w : World) (name : String) : World × Bool :=
  match w.latestTask name with
  | none => (w, false)
  | some i =>
      if w.shownResults.contains i then (w, false)
      else
        match w.thread? i with
        | none => (w, true)
        | some thread => (HasExecutor.update w (·.abort thread), true)

def bindResource (w : World) (name : String) (o : Outcome Value) : World :=
  { w with
    resources := w.resources.filter (·.1 != name) ++ [(name, w.cells.length)]
    cells := w.cells ++ [{ initial := o }] }

def take (w : World) : Step → World × Answer
  | .launch key name body resource policy =>
      let (w, accepted) := w.launch key name body resource policy
      (w, .flag accepted)
  | .cancel key =>
      let (w, found) := w.cancel key
      (w, .found found)
  | .owned key => (w, .found (w.owns key))
  | .owner key name =>
      match if w.owned then w.supervisor.owner? key else none with
      | none => (w, .nothing)
      | some i => (name.elim w fun name => w.keep name i, w.viewTask i)
  | .handle name =>
      match w.handles.lookup name with
      | none => (w, .nothing)
      | some i => (w, w.viewTask i)
  | .wait name =>
      match w.handles.lookup name with
      | none => (w, .flag false)
      | some i => (HasExecutor.spawn w (.waiter ("wait " ++ name) i), .flag true)
  | .cancelAll =>
      if w.owned then (HasExecutor.spawn w (.program (.cancelAll none)), .flag true)
      else (w, .flag false)
  | .waitIdle =>
      if w.owned then (HasExecutor.spawn w (.program (.waitIdle [])), .flag true)
      else (w, .flag false)
  | .abort name =>
      let (w, found) := w.abort name
      (w, .flag found)
  | .cancelParent => (if w.parented then Hosting.input w .close else w, .nothing)
  | .clone =>
      let clones := if w.owned then w.clones + 1 else w.clones
      ({ w with clones }, .count clones)
  | .dropClone => ({ w with clones := w.clones - 1 }, .flag (w.clones != 0))
  | .dropAll => ({ w with owned := false }, .dropped w.owned (w.owned && w.managed))
  | .debug =>
      let supervisor := w.supervisor.shown
      let manager := Text.record "ResourceManager" [("supervisor", supervisor)] ++ " " ++
        toString w.supervisor.count
      (w, .shown (if w.owned then some supervisor else none)
        (if w.owned && w.managed then some manager else none))
  | .newResource name o => (w.bindResource name o, .nothing)
  | .set name o =>
      let (c, w) := w.cellNamed name
      (w.modifyCell c (·.set o), .nothing)
  | .dropResource name =>
      ({ w with resources := w.resources.filter (·.1 != name) },
        .flag (w.resources.lookup name).isSome)
  | .debugResource name =>
      let (c, w) := w.cellNamed name
      (w, .text ((w.cell c).shown Value.shown))
  | .subscribe name watcher =>
      let (c, w) := w.cellNamed name
      (HasExecutor.spawn w (.watcher watcher c { seen := (w.cell c).version }), .nothing)
  | .reportError o =>
      if w.owned && w.managed then
        ({ w with
          reports := w.reports ++ o.error?.toList.map fun e =>
            { source := w.supervisor.name, failure := .task e } }, .nothing)
      else (w, .nothing)
  | .advance ms => (Hosted.advance turnLimit ms w, .nothing)
  | .settle => (Hosted.settle turnLimit w, .nothing)
  | .release latch =>
      (HasExecutor.signal { w with opened := latch :: w.opened } (.latch latch), .nothing)

def readEvents (w : World) : List Event × World :=
  match w.bus with
  | none => ([], w)
  | some bus =>
      let (receipts, receiver) := bus.receiveAll w.receiver
      (Receipt.events receipts, { w with receiver })

def runStep (w : World) (s : Step) : Observation × World :=
  let (w, answer) := w.take s
  let (events, w) := w.tidy.readEvents
  let finished := w.results.mergeSort fun a b => a.1 ≤ b.1
  ({ time := w.executor.now
     answer
     keys := if w.owned then some (w.supervisor.keys.mergeSort fun a b => !b.before a) else none
     notes := w.notes
     events
     finished := finished.map fun (i, r) => ((w.bodies[i]?.map Body.name).getD "", r)
     resources := w.resources.map fun (name, c) => (name, (w.cell c).get)
     sights := w.sights
     reports := w.reports },
    { w with
      notes := []
      results := []
      shownResults := w.shownResults ++ finished.map Prod.fst
      sights := []
      reports := [] })

def run : World → List Step → List Observation
  | _, [] => []
  | w, s :: rest =>
      let (o, w) := w.runStep s
      o :: w.run rest

end World

structure Setup where
  name : String := "supervisor"
  hasBus : Bool := true
  parented : Bool := false
  managed : Bool

def Setup.world (s : Setup) : World :=
  { supervisor := { name := s.name }
    bus := if s.hasBus then some (Bus.ofCapacity 65536) else none
    managed := s.managed
    parented := s.parented }

end Lifecycle.Supervisor.Scenario
