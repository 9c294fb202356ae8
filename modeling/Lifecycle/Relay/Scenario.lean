import Lifecycle.Journal
import Lifecycle.Relay.Hosting

/-!
# Scenarios for relays

A scenario drives one relay step by step.  Its feed either follows scripts when it is started
and stopped, or opens a stream and pumps it into the relay each time it is started.  Consumers are
read by hand or by reader tasks.
-/

namespace Lifecycle.Relay.Scenario

open Gate (ConsumerId Hooked HookEnd HookTurn Phase)

/-- One item of the script of a feed.  A stopping script only pauses and panics. -/
inductive Item where
  | pause (p : Pause)
  | emit (v : Value)
  | complete
  | fail (e : ProducerError)
  | untilCancelled
  | log (text : String)
  | spawn (items : List Item)
  | refuse (e : ProducerError)
  | panic (p : Panic)

inductive StreamItem where
  | pause (p : Pause)
  | value (v : Value)
  | failure (e : ProducerError)
  | panic (p : Panic)

/-- A stream comes in portions, of which there may be no last one.  Before it comes to the next
portion it lets the other tasks have their turns. -/
structure Stream where
  items : List StreamItem
  later : Nat → Option (List StreamItem) := fun _ => none

def Stream.next? (s : Stream) : Option Stream :=
  (s.later 0).map fun items => { items, later := fun n => s.later (n + 1) }

inductive Feed where
  | scripted (starts stops : List (List Item))
  | unstopped (starts : List (List Item))
  | flowing (opens : Nat → Stream)

def Feed.streamed (streams : List (List StreamItem)) : Feed :=
  .flowing fun call => { items := (streams[call]?).getD [] }

inductive Note where
  | start (call : Nat)
  | started (call : Nat)
  | stop (call : Nat)
  | stopped (call : Nat)
  | opened (call : Nat)
  | emitted (result : Except ProducerError Unit)
  | completed (accepted : Bool)
  | logged (text : String)
  | cancelled (name : String)
  | got (name : String) (item : Relay.Item)
  | left (name : String)

inductive Signal where
  | gate (w : Gate.Wait)
  | latch (name : String)
  | inbox (k : Nat)
  deriving DecidableEq, Repr

structure Hook where
  call : Nat
  rest : List Item

/-- A task that reads an inbox: `remaining` items, or all there are, with a sleep of `every`
milliseconds after each. -/
structure Reader where
  name : String
  consumer : Consumer
  remaining : Option Nat
  every : Nat
  wakeAt : Option Nat := none

inductive Task where
  | gate (t : Gate.Task Hook)
  | watch (name : String) (session : Nat)
  | work (session : Nat) (rest : List Item)
  | pump (session : Nat) (rest : Stream)
  | reader (r : Reader)

structure World where
  executor : Executor Signal Task := {}
  relay : State
  timer : Debouncer
  journal : Journal
  feed : Feed
  starts : Nat := 0
  emitters : List Nat := []
  stops : Nat := 0
  owned : Bool := true
  clones : Nat := 0
  consumers : List (String × Consumer) := []
  opened : List String := []
  notes : List (Nat × Note) := []

instance : HasExecutor World Signal Task where
  executor := World.executor
  withExecutor w executor := { w with executor }

namespace World

def note (w : World) (n : Note) : World :=
  { w with notes := w.notes ++ [(w.executor.now, n)] }

def gate (w : World) : GateState := w.relay.gate

def ofTask? : Task → Option (Gate.Task Hook)
  | .gate t => some t
  | _ => none

def reads : Task → Bool
  | .reader _ => true
  | _ => false

end World

instance : Hosting World Signal Task Hook where
  toSignal := .gate
  toInbox := .inbox
  toTask := .gate
  ofTask? := World.ofTask?
  relay := World.relay
  withRelay w relay := { w with relay }
  timer := World.timer
  withTimer w timer := { w with timer }
  publish w e := { w with journal := w.journal.publish e }
  report w r := { w with journal := w.journal.report r }
  isHeld w :=
    w.owned || w.clones != 0 || !w.consumers.isEmpty ||
      w.executor.tasks.any fun t => World.reads t.2

def act (i : Nat) (w : World) : Item → World × Reaction Signal Item HookEnd
  | .pause p => (w, p.react w.executor.now w.opened .pause .latch)
  | .emit v =>
      let (w, result) := Hosting.emit w i v
      (w.note (.emitted result), .proceed)
  | .complete =>
      let (w, accepted) := Hosting.complete w i
      (w.note (.completed accepted), .proceed)
  | .fail e => (Hosting.fail w i e, .proceed)
  | .untilCancelled =>
      if w.gate.isCancelled i then (w, .proceed)
      else (w, .suspend .untilCancelled [.gate (.gate (.sessionOver i))] none)
  | .log text => (w.note (.logged text), .proceed)
  | .spawn items => (HasExecutor.spawn w (.work i items), .proceed)
  | .refuse e => (w, .finish (.refused e))
  | .panic p => (w, .finish (.panicked p.info))

def stopItem (w : World) : Item → World × Reaction Signal Item String
  | .pause p => (w, p.react w.executor.now w.opened .pause .latch)
  | .panic p => (w, .finish p.info)
  | _ => (w, .proceed)

/-- One item of a stream.  The pump ends with the first failure and with a value that comes too
late. -/
def pumpItem (i : Nat) (w : World) : StreamItem → World × Reaction Signal StreamItem Unit
  | .pause p => (w, p.react w.executor.now w.opened .pause .latch)
  | .value v =>
      match Hosting.emit w i v with
      | (w, .ok ()) => (w, .proceed)
      | (w, .error _) => (w, .finish ())
  | .failure e => (Hosting.fail w i e, .finish ())
  | .panic _ => (w, .finish ())

def waitInSession (w : World) (i : Nat) (task : Task) (signals : List Signal)
    (deadline : Option Nat) : World × Rest Signal Task :=
  if w.gate.isCancelled i then (w, .ended)
  else (w, .waiting task (.gate (.gate (.sessionOver i)) :: signals) deadline)

def runWork (w : World) (i : Nat) (items : List Item) : World × Rest Signal Task :=
  if w.gate.isCancelled i then (w, .ended)
  else
    match runScript (act i) w items with
    | (w, .suspended rest signals deadline) => waitInSession w i (.work i rest) signals deadline
    | (w, _) => (w, .ended)

def pull (w : World) (i : Nat) (stream : Stream) : World × Rest Signal Task :=
  match runScript (pumpItem i) w stream.items with
  | (w, .completed) =>
      match stream.next? with
      | none => ((Hosting.complete w i).1, .ended)
      | some rest => (w, .yielding (.pump i rest))
  | (w, .suspended items signals deadline) =>
      waitInSession w i (.pump i { stream with items }) signals deadline
  | (w, _) => (w, .ended)

def runPump (w : World) (i : Nat) (stream : Stream) : World × Rest Signal Task :=
  if w.gate.isCancelled i then (w, .ended) else pull w i stream

def callActivate (w : World) (i : Nat) : World × Hook :=
  let call := w.starts
  let w := { w with starts := w.starts + 1 }
  match w.feed with
  | .scripted starts _ | .unstopped starts =>
      ({ w with emitters := w.emitters ++ [i] }.note (.start call),
        { call, rest := (starts[call]?).getD [] })
  | .flowing opens =>
      (HasExecutor.spawn (w.note (.opened call)) (.pump i (opens call)), { call, rest := [] })

def runActivate (w : World) (i : Nat) (hook : Hook) : World × HookTurn Signal Hook HookEnd :=
  match w.feed with
  | .flowing _ => (w, .ended .returned)
  | _ =>
      match runScript (act i) w hook.rest with
      | (w, .completed) => (w.note (.started hook.call), .ended .returned)
      | (w, .finished (.refused e)) => (w.note (.started hook.call), .ended (.refused e))
      | (w, .finished result) => (w, .ended result)
      | (w, .suspended rest signals deadline) =>
          (w, .waiting { hook with rest } signals deadline)
      | (w, .gaveWay rest) => (w, .waiting { hook with rest } [] none)

def callDeactivate (w : World) : World × Hook :=
  let call := w.stops
  let w := { w with stops := w.stops + 1 }
  match w.feed with
  | .scripted _ stops => (w.note (.stop call), { call, rest := (stops[call]?).getD [] })
  | _ => (w, { call, rest := [] })

def runDeactivate (w : World) (hook : Hook) : World × HookTurn Signal Hook (Option String) :=
  match runScript stopItem w hook.rest with
  | (w, .completed) =>
      (match w.feed with
        | .scripted _ _ => w.note (.stopped hook.call)
        | _ => w, .ended none)
  | (w, .finished info) => (w, .ended (some info))
  | (w, .suspended rest signals deadline) =>
      (w, .waiting { hook with rest } signals deadline)
  | (w, .gaveWay rest) => (w, .waiting { hook with rest } [] none)

instance : Hooked World Signal Task Nat (Option Value) Hook where
  callActivate := callActivate
  runActivate := runActivate
  callDeactivate w _ := callDeactivate w
  runDeactivate w _ hook := runDeactivate w hook

/-- A reader takes items until it has enough of them or the inbox is closed.  The fuel is the number
of items that lie in the inbox. -/
def runReader : Nat → World → Reader → World × Rest Signal Task
  | fuel, w, r =>
      if r.remaining == some 0 then (leave w r, .ended)
      else
        match Hosting.take w r.consumer with
        | (w, .closed) => (leave w r, .ended)
        | (w, .pending) => (w, .waiting (.reader r) [.inbox r.consumer.inbox] none)
        | (w, .item i) =>
            let w := w.note (.got r.name i)
            let r := { r with remaining := r.remaining.map (· - 1), wakeAt := none }
            if r.every = 0 then
              match fuel with
              | 0 => (w, .yielding (.reader r))
              | fuel + 1 => runReader fuel w r
            else
              let wakeAt := w.executor.now + r.every
              (w, .waiting (.reader { r with wakeAt := some wakeAt }) [] (some wakeAt))
where
  leave (w : World) (r : Reader) : World :=
    (Hosting.abandon w r.consumer).note (.left r.name)

instance : Hosted World Signal Task where
  turn w _
    | .gate t => Hooked.turn w t
    | .watch name i =>
        if w.gate.isCancelled i then (w.note (.cancelled name), .ended)
        else (w, .waiting (.watch name i) [.gate (.gate (.sessionOver i))] none)
    | .work i rest => runWork w i rest
    | .pump i rest => runPump w i rest
    | .reader r => runReader (Hosting.unread w r.consumer).length w r
  discard w _ _ := w
  tidy := Gate.Hosting.reap

/-- A session is named by the number of its emitter; without a number it is the latest. -/
inductive Step where
  | attach (name : String)
  | detach (name : String)
  | tryTake (name : String)
  | read (name : String)
  | poll (name : String)
  | reader (name : String) (count : Option Nat) (every : Nat)
  | emit (v : Value) (session : Option Nat)
  | complete (session : Option Nat)
  | fail (e : ProducerError) (session : Option Nat)
  | watch (name : String) (session : Option Nat)
  | emitter (session : Option Nat)
  | debug
  | clone
  | dropClone
  | dropRelay
  | advance (ms : Nat)
  | settle
  | release (latch : String)

inductive Answer where
  | nothing
  | noSession
  | noRelay
  | noConsumer
  | attached (id : ConsumerId) (consumer : String)
  | flag (b : Bool)
  | count (n : Nat)
  | taken (t : Inbox.Taken)
  | items (items : List Relay.Item)
  | emitted (result : Except ProducerError Unit)
  | emitter (active cancelled : Bool) (shown : String)
  | text (s : String)

/-- What can be seen after a step.  Lists hold what is new since the step before. -/
structure Observation where
  time : Nat
  answer : Answer
  gate : Option (Phase × Nat)
  notes : List (Nat × Note)
  events : List Event
  reports : List Report
  lines : List LogLine

namespace World

def hasHandle (w : World) : Bool := w.owned || w.clones != 0

def withSession (w : World) (call : Option Nat) (f : Nat → World × Answer) : World × Answer :=
  let session := match call with
    | none => w.emitters.getLast?
    | some n => w.emitters[n]?
  match session with
  | none => (w, .noSession)
  | some i => f i

def withConsumer (w : World) (name : String) (f : Consumer → World × Answer) : World × Answer :=
  match w.consumers.lookup name with
  | none => (w, .noConsumer)
  | some c => f c

def forgetConsumer (w : World) (name : String) : World :=
  { w with consumers := w.consumers.filter (·.1 != name) }

def attach (w : World) (name : String) : World × Answer :=
  if w.hasHandle then
    let (w, c) := Hosting.attach w
    let w := match w.consumers.lookup name with
      | none => w
      | some old => Hosting.abandon (w.forgetConsumer name) old
    ({ w with consumers := w.consumers ++ [(name, c)] }, .attached c.id (shownConsumer c.id))
  else (w, .noRelay)

def take (w : World) : Step → World × Answer
  | .attach name => w.attach name
  | .detach name =>
      match w.consumers.lookup name with
      | none => (w, .flag false)
      | some c => (Hosting.abandon (w.forgetConsumer name) c, .flag true)
  | .tryTake name => w.withConsumer name fun c =>
      match Hosting.take w c with
      | (w, .item i) => (w, .taken (.item i))
      | (w, _) => (w, .nothing)
  | .poll name => w.withConsumer name fun c =>
      let (w, taken) := Hosting.take w c
      (w, .taken taken)
  | .read name => w.withConsumer name fun c =>
      let (w, items) := Hosting.takeAll w c
      (w, .items items)
  | .reader name remaining every => w.withConsumer name fun c =>
      let reader : Reader := { name, consumer := c, remaining, every }
      (HasExecutor.spawn (w.forgetConsumer name) (.reader reader), .nothing)
  | .emit v call => w.withSession call fun i =>
      let (w, result) := Hosting.emit w i v
      (w, .emitted result)
  | .complete call => w.withSession call fun i =>
      let (w, accepted) := Hosting.complete w i
      (w, .flag accepted)
  | .fail e call => w.withSession call fun i => (Hosting.fail w i e, .nothing)
  | .watch name call => w.withSession call fun i =>
      (HasExecutor.spawn w (.watch name i), .nothing)
  | .emitter call => w.withSession call fun i =>
      (w, .emitter (w.gate.isCurrent i) (w.gate.isCancelled i) (w.relay.shownEmitter i))
  | .debug => (w, if w.hasHandle then .text w.relay.shown else .nothing)
  | .clone =>
      let clones := if w.hasHandle then w.clones + 1 else w.clones
      ({ w with clones }, .count clones)
  | .dropClone => ({ w with clones := w.clones - 1 }, .flag (w.clones != 0))
  | .dropRelay => ({ w with owned := false }, .flag w.owned)
  | .advance ms => (Hosted.advance turnLimit ms w, .nothing)
  | .settle => (Hosted.settle turnLimit w, .nothing)
  | .release latch =>
      (HasExecutor.signal { w with opened := latch :: w.opened } (.latch latch), .nothing)

def runStep (w : World) (s : Step) : Observation × World :=
  let (w, answer) := w.take s
  let w := Gate.Hosting.reap w
  let (events, journal) := w.journal.readEvents
  ({ time := w.executor.now
     answer
     gate := if w.hasHandle then some (w.gate.phase, w.gate.roster.count) else none
     notes := w.notes
     events
     reports := w.journal.reports
     lines := w.journal.lines },
    { w with journal := journal.turnPage, notes := [] })

def run : World → List Step → List Observation × World
  | w, [] => ([], w)
  | w, s :: rest =>
      let (o, w) := w.runStep s
      let (later, w) := w.run rest
      (o :: later, w)

end World

structure Setup where
  settings : RelaySettings := {}
  hasBus : Bool := true
  collects : Bool := true
  feed : Feed

def Setup.world (s : Setup) : World :=
  { relay :=
      { gate := Gate.State.fresh s.settings.name s.settings.gracePeriod
        conflate := s.settings.conflate }
    timer := { settings := { delay := s.settings.gracePeriod.getD .zero } }
    journal := Journal.start s.hasBus s.collects
    feed := s.feed }

end Lifecycle.Relay.Scenario
