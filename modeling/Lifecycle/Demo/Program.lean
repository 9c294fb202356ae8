import Lifecycle.Demo.World

/-!
# Three small programs

The first shares one ticker among consumers that come and go, the second refreshes resources so that
a newer load supersedes an older one, and the third prints events as they come in.
-/

namespace Lifecycle.Demo

structure Program where
  world : World
  commands : List Command

namespace Program

def relayWorld (settings : RelaySettings) (feed : Feed) (subscriber : Subscribers.Channel) :
    World :=
  { set := { channels := [subscriber] }
    relay :=
      { gate := Gate.State.fresh settings.name settings.gracePeriod
        conflate := settings.conflate }
    timer := { settings := { delay := settings.gracePeriod.getD .zero } }
    feed }

/-- Consumers share a ticker.  One that comes back in time finds it running and is given the last
tick; one that comes too late starts a new session. -/
def sharedFeed : Program :=
  { world :=
      relayWorld { name := "ticker", grace := .ofMs 300, conflate := true } (.ticker 50)
        (.ofCapacity Event.logWriterName Event.defaultQueueCapacity)
    commands :=
      [.listen,
        .attach "first", .receive "first" "[first] tick ", .receive "first" "[first] tick ",
        .receive "first" "[first] tick ", .detach "first",
        .printPhase "[main] state after detach: ", .pause (.sleep 100),
        .attach "second", .receive "second" "[second] replayed tick ", .detach "second",
        .pause (.sleep 500), .printPhase "[main] state after grace: ",
        .attach "third", .receive "third" "[third] fresh tick ", .detach "third",
        .shutDown] }

/-- A load for a key is cancelled by a newer one, which waits for it; a load that fails keeps the
data of its resource. -/
def exclusiveRefresh : Program :=
  { world := { supervisor := { name := "articles" } }
    commands :=
      [.resource "article" (.success (.text "cached article")), .watch "article",
        .launch (.number 42) (some "article")
          [.unlessCancelled (.sleep 5000) (.success (.text "slow article")),
            .print "[load #1] cancelled, cleaning up", .pause (.sleep 50), .giveUp .canceled],
        .pause (.sleep 20),
        .launch (.number 42) (some "article")
          [.print "[load #2] started", .set (.success (.text "fresh article"))],
        .join 0 (some "[main] #1 ended: "), .join 1 (some "[main] #2 ended: "),
        .resource "other" (.success (.text "old")),
        .launch (.number 7) (some "other") [.giveUp (.fail "backend unavailable")],
        .join 2 (some "[main] #3 ended: "), .printResource "other" "[main] resource 7: "] }

def consoleLine (e : Event) : Option String :=
  let head := s!"[sub] #{e.seq} "
  let source := "source=" ++ e.source.getD "<unknown>"
  match e.kind with
  | .producerActivating | .producerActive | .producerInactive =>
      some (head ++ e.kind.shown ++ " " ++ source)
  | .producerDraining => some (head ++ "draining " ++ source ++ s!" grace={e.delayMs.getD 0}ms")
  | .taskLaunched | .taskFinished | .taskCancelled =>
      some (head ++ e.kind.shown ++ " " ++ source ++ " key=" ++ e.key.getD "-" ++
        s!" id={e.taskId.getD 0}")
  | _ => none

/-- A subscriber prints events of a relay and of a supervisor on the same bus. -/
def customSubscriber : Program :=
  { world :=
      { relayWorld { name := "letters", grace := .ofMs 100 } (.values [.text "a", .text "b"])
          (.ofCapacity "console" 256) with
        console := consoleLine }
    commands :=
      [.listen,
        .attach "consumer", .receiveAll "consumer" "[main] got ",
        .launch (.text "job") none [.untilCancelled], .giveWay 1, .launch (.text "job") none [],
        .join 0 none, .join 1 none, .pause (.sleep 200), .shutDown] }

def ofName? : String → Option Program
  | "shared_feed" => some sharedFeed
  | "exclusive_refresh" => some exclusiveRefresh
  | "custom_subscriber" => some customSubscriber
  | _ => none

def run (p : Program) (after : Option Nat) : World :=
  let w := HasExecutor.spawn p.world (.main p.commands)
  let w := Hosted.runForeground 0 (fun w => w.ended.isSome) turnLimit w
  after.elim w fun ms => Hosted.advance turnLimit ms w

end Program

end Lifecycle.Demo
