import Lifecycle.Executor.Foreground
import Lifecycle.Relay.Hosting
import Lifecycle.Resource.Cell
import Lifecycle.Subscribers.Hosting
import Lifecycle.Supervisor.Hosting

/-!
# A world for small programs

A small program has a relay, a supervisor with resources, and a set with one subscriber that listens
to the bus of both.  Its main task works off a list of commands and prints lines.
-/

namespace Lifecycle.Demo

open Resource (Cell Load Watcher)

inductive Item where
  | pause (p : Pause)
  | print (line : String)
  | untilCancelled
  | unlessCancelled (p : Pause) (late : Outcome Value)
  | set (o : Outcome Value)
  | giveUp (e : TaskError)

inductive Command where
  | listen
  | attach (consumer : String)
  | detach (consumer : String)
  | receive (consumer words : String)
  | receiveAll (consumer words : String)
  | printPhase (words : String)
  | pause (p : Pause)
  | giveWay (times : Nat)
  | resource (name : String) (o : Outcome Value)
  | watch (resource : String)
  | launch (key : Value) (resource : Option String) (body : List Item)
  | join (i : Nat) (words : Option String)
  | printResource (resource words : String)
  | shutDown

inductive Feed where
  | ticker (period : Nat)
  | values (vs : List Value)

inductive Signal where
  | relay (w : Gate.Wait)
  | inbox (k : Nat)
  | supervisor (s : Supervisor.Signal)
  | cell (c : Nat)
  | set (s : Subscribers.Signal)
  deriving DecidableEq, Repr

structure Body where
  rest : List Item
  load : Option (Nat × Load Value) := none

inductive Task where
  | main (rest : List Command)
  | relay (t : Gate.Task Unit)
  | ticker (session count : Nat) (p : Pause)
  | pump (session : Nat) (vs : List Value)
  | supervisor (p : Supervisor.Program Body)
  | watcher (c : Nat) (v : Watcher)
  | set (p : Subscribers.Program Unit)

structure World where
  executor : Executor Signal Task := {}
  bus : Bus := Bus.ofCapacity 256
  set : Subscribers.State := { channels := [], held := false }
  console : Event → Option String := fun _ => none
  relay : Relay.State := { gate := Gate.State.fresh "relay" none, conflate := false }
  timer : Debouncer := { settings := {} }
  feed : Feed := .values []
  starts : Nat := 0
  consumers : List (String × Relay.Consumer) := []
  supervisor : Supervisor.State := { name := "supervisor" }
  bodies : List Body := []
  results : List (Nat × Supervisor.Result) := []
  cells : List (String × Cell Value) := []
  ended : Option Nat := none
  lines : List (Nat × String) := []

instance : HasExecutor World Signal Task where
  executor := World.executor
  withExecutor w executor := { w with executor }

namespace World

def print (w : World) (line : String) : World :=
  { w with lines := w.lines ++ [(w.executor.now, line)] }

def ofTask? : Task → Option (Gate.Task Unit)
  | .relay t => some t
  | _ => none

end World

instance : Subscribers.Handling World Signal Task Unit where
  toSignal := .set
  toTask := .set
  state := World.set
  withState w set := { w with set }
  bus := World.bus
  withBus w bus := { w with bus }
  callHandler w _ e := ((w.console e).elim w w.print, ())
  runHandler w _ _ := (w, .ended none)

instance : Relay.Hosting World Signal Task Unit where
  toSignal := .relay
  toInbox := .inbox
  toTask := .relay
  ofTask? := World.ofTask?
  relay := World.relay
  withRelay w relay := { w with relay }
  timer := World.timer
  withTimer w timer := { w with timer }
  publish := Subscribers.Hosting.publish
  report w _ := w
  isHeld w := w.ended.isNone

instance : Supervisor.Hosting World Signal Task Body where
  toSignal := .supervisor
  toTask := .supervisor
  state := World.supervisor
  withState w supervisor := { w with supervisor }
  publish := Subscribers.Hosting.publish
  resolve w i r := { w with results := w.results ++ [(i, r)] }

namespace World

def cell (w : World) (c : Nat) : Cell Value := (w.cells[c]?.map Prod.snd).getD {}

def cellNamed? (w : World) (name : String) : Option Nat := w.cells.findIdx? fun c => c.1 == name

def modifyCell (w : World) (c : Nat) (f : Cell Value → Cell Value) : World :=
  HasExecutor.signal { w with cells := w.cells.modify c fun (name, x) => (name, f x) } (.cell c)

def report (w : World) (i : Nat) (e : TaskError) : World :=
  match w.supervisor.tasks[i]? with
  | none => w
  | some task =>
      let r := Resource.report w.supervisor.name task.key e
      let key := Text.optional (r.key.map Text.quoted)
      w.print ("[reporter] " ++ r.source ++ " key=" ++ key ++ ": " ++ r.failure.text)

def watch (w : World) (c : Nat) (v : Watcher) : World × Rest Signal Task :=
  match v.look (w.cell c) with
  | (.closed, _) => (w, .ended)
  | (.nothing, v) => (w, .waiting (.watcher c v) [.cell c] none)
  | (.outcome o, v) =>
      let w := w.print ("[watch] " ++ o.shown Value.shown)
      if (w.cell c).closed then (w, .ended) else (w, .waiting (.watcher c v) [.cell c] none)

end World

def act (i : Nat) (c : Option Nat) (w : World) :
    Item → World × Reaction Signal Item (Except TaskError Unit)
  | .pause p => (w, p.react w.executor.now [] .pause fun _ => .supervisor (.cancelled i))
  | .print line => (w.print line, .proceed)
  | .untilCancelled =>
      if w.supervisor.isCancelled i then (w, .proceed)
      else (w, .suspend .untilCancelled [.supervisor (.cancelled i)] none)
  | .unlessCancelled p late =>
      if w.supervisor.isCancelled i then (w, .proceed)
      else
        match p.poll w.executor.now [] with
        | none => (c.elim w fun c => w.modifyCell c (·.set late), .finish (.ok ()))
        | some (p, _, deadline) =>
            (w, .suspend (.unlessCancelled p late) [.supervisor (.cancelled i)] deadline)
  | .set o => (c.elim w fun c => w.modifyCell c (·.set o), .proceed)
  | .giveUp e => (w, .finish (.error e))

/-- What a task returns for its body; a load turns failures into outcomes. -/
def conclude (w : World) (i : Nat) (load : Option (Nat × Load Value))
    (r : Except TaskError Unit) : World × Supervisor.BodyTurn Signal Body :=
  match load with
  | none => (w, .ended r)
  | some (c, l) =>
      match l.conclude (w.cell c) r with
      | (none, _, r) => (w, .ended r)
      | (some e, cell, r) => ((w.report i e).modifyCell c fun _ => cell, .ended r)

def runBody (w : World) (i : Nat) (body : Body) : World × Supervisor.BodyTurn Signal Body :=
  match runScript (act i (body.load.map Prod.fst)) w body.rest with
  | (w, .completed) => conclude w i body.load (.ok ())
  | (w, .finished r) => conclude w i body.load r
  | (w, .suspended rest signals deadline) => (w, .waiting { body with rest } signals deadline)
  | (w, .gaveWay rest) => (w, .yielding { body with rest })

def callBody (w : World) (i : Nat) : World × Body :=
  let body := (w.bodies[i]?).getD { rest := [] }
  (body.load.elim w fun (c, l) => w.modifyCell c l.start, body)

instance : Supervisor.Bodied World Signal Task Body where
  callBody := callBody
  runBody := runBody
  joined w _ := w

def startFeed (w : World) (i : Nat) : World :=
  let w := { w with starts := w.starts + 1 }
  match w.feed with
  | .ticker period =>
      HasExecutor.spawn (w.print s!"[ticker] start (session #{w.starts})")
        (.ticker i 0 (.sleep period))
  | .values vs => HasExecutor.spawn w (.pump i vs)

def stopFeed (w : World) : World :=
  match w.feed with
  | .ticker _ => w.print "[ticker] stop"
  | .values _ => w

instance : Gate.Hooked World Signal Task Nat (Option Value) Unit where
  callActivate w i := (startFeed w i, ())
  runActivate w _ _ := (w, .ended .returned)
  callDeactivate w _ := (stopFeed w, ())
  runDeactivate w _ _ := (w, .ended none)

def awaitTick (w : World) (i count : Nat) (p : Pause) : World × Rest Signal Task :=
  match p.poll w.executor.now [] with
  | none => (w, .yielding (.ticker i count p))
  | some (p, _, deadline) =>
      (w, .waiting (.ticker i count p) [.relay (.gate (.sessionOver i))] deadline)

def tick (w : World) (i count : Nat) (p : Pause) : World × Rest Signal Task :=
  if w.relay.gate.isCancelled i then (w, .ended)
  else
    match p.poll w.executor.now [], w.feed with
    | none, .ticker period =>
        match Relay.Hosting.emit w i (.number (count + 1)) with
        | (w, .ok ()) => awaitTick w i (count + 1) (.sleep period)
        | (w, .error _) => (w, .ended)
    | _, _ => awaitTick w i count p

def pump (w : World) (i : Nat) : List Value → World
  | [] => (Relay.Hosting.complete w i).1
  | v :: rest =>
      match Relay.Hosting.emit w i v with
      | (w, .ok ()) => pump w i rest
      | (w, .error _) => w

def shownItem : Relay.Item → String
  | .value v => Text.applied "Ok" v.shown
  | .failure e => Text.applied "Err" e.shown

def shownResult : Supervisor.Result → Option String
  | .returned (.ok exit) => some (Text.applied "Ok" (Text.applied "Ok" exit.shown))
  | .returned (.error e) => some (Text.applied "Ok" (Text.applied "Err" e.shown))
  | .aborted | .panicked _ => none

def receive (w : World) (name : String) (again : Command) (f : World → Relay.Item → World) :
    World × Reaction Signal Command Empty :=
  match w.consumers.lookup name with
  | none => (w, .proceed)
  | some c =>
      match Relay.Hosting.take w c with
      | (w, .item item) => (f w item, .proceed)
      | (w, .closed) => (w, .proceed)
      | (w, .pending) => (w, .suspend again [.inbox c.inbox] none)

def obey (w : World) : Command → World × Reaction Signal Command Empty
  | .listen =>
      (Subscribers.Hosting.input (Subscribers.Hosting.start w) (.listen w.bus.subscribe), .proceed)
  | .attach name =>
      let (w, c) := Relay.Hosting.attach w
      ({ w with consumers := w.consumers ++ [(name, c)] }, .proceed)
  | .detach name =>
      match w.consumers.lookup name with
      | none => (w, .proceed)
      | some c =>
          let consumers := w.consumers.filter (·.1 != name)
          (Relay.Hosting.abandon { w with consumers } c, .proceed)
  | .receive name words => receive w name (.receive name words) fun w item =>
      match item with
      | .value v => w.print (words ++ v.shown)
      | .failure _ => w
  | .receiveAll name words =>
      match w.consumers.lookup name with
      | none => (w, .proceed)
      | some c =>
          let (w, items) := Relay.Hosting.takeAll w c
          let w := items.foldl (fun w item => w.print (words ++ shownItem item)) w
          receive w name (.receiveAll name words) fun w _ => w
  | .printPhase words => (w.print (words ++ w.relay.gate.phase.label), .proceed)
  | .pause p => (w, p.react w.executor.now [] .pause fun _ => .set .published)
  | .giveWay 0 => (w, .proceed)
  | .giveWay (n + 1) => (w, .giveWay (.giveWay n))
  | .resource name o => ({ w with cells := w.cells ++ [(name, { initial := o })] }, .proceed)
  | .watch name =>
      match w.cellNamed? name with
      | none => (w, .proceed)
      | some c => (HasExecutor.spawn w (.watcher c { seen := (w.cell c).version }), .proceed)
  | .launch key resource rest =>
      let load := (resource.bind w.cellNamed?).map fun c => (c, Load.ofCell (w.cell c))
      (Supervisor.Hosting.input { w with bodies := w.bodies ++ [{ rest, load }] } (.launch key),
        .proceed)
  | .join i words =>
      match w.results.lookup i with
      | none => (w, .suspend (.join i words) [.supervisor (.ended i)] none)
      | some r =>
          match words, shownResult r with
          | some words, some shown => (w.print (words ++ shown), .proceed)
          | _, _ => (w, .proceed)
  | .printResource name words =>
      match w.cellNamed? name with
      | none => (w, .proceed)
      | some c => (w.print (words ++ (w.cell c).get.shown Value.shown), .proceed)
  | .shutDown =>
      match Subscribers.Hosting.shutDown w with
      | (w, []) => (w, .proceed)
      | (w, signals) => (w, .suspend .shutDown (signals.map .set) none)

def World.leave (w : World) : World :=
  let w := { w with ended := some w.executor.now, consumers := [] }
  let w := Supervisor.Hosting.input w .close
  (List.range w.cells.length).foldl (fun w c => w.modifyCell c fun x => { x with closed := true }) w

def runMain (w : World) (commands : List Command) : World × Rest Signal Task :=
  match runScript obey w commands with
  | (w, .completed) => (w.leave, .ended)
  | (w, .suspended rest signals deadline) => (w, .waiting (.main rest) signals deadline)
  | (w, .gaveWay rest) => (w, .yielding (.main rest))

instance : Hosted World Signal Task where
  turn w _
    | .main commands => runMain w commands
    | .relay t => Gate.Hooked.turn w t
    | .ticker i count p => tick w i count p
    | .pump i vs => (if w.relay.gate.isCancelled i then w else pump w i vs, .ended)
    | .supervisor p => Supervisor.Bodied.turn w p
    | .watcher c v => w.watch c v
    | .set p => Subscribers.Handling.turn w p
  discard w _ _ := w
  tidy := Gate.Hosting.reap

end Lifecycle.Demo
