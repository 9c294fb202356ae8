import Lifecycle.Proofs.Executor.Turns
import Lifecycle.Proofs.Resource.History
import Lifecycle.Proofs.Script
import Lifecycle.Proofs.Supervisor.Run
import Lifecycle.Supervisor.Scenario

/-!
# Runs of a manager of resources

In each act a user takes a step, one of the tasks in the queue has its turn, or the clock moves,
when there is nothing else to do, and not beyond the next timer.  The record of a run tells what
happens to the resources by it.
-/

namespace Lifecycle.Supervisor.Scenario

open HasExecutor
open Resource (Deed Line Load Loader)

instance : LawfulExecutor World where
  executor_withExecutor _ _ := rfl
  withExecutor_withExecutor _ _ _ := rfl

abbrev Record := List (Line Value)

inductive Act where
  | step (s : Step)
  | turn (id : TaskId)
  | clock (target : Nat)

/-! ## What a body does to its resource -/

def forwarded : StreamItem → List (Deed Value)
  | .pause _ => []
  | .outcome o => o.error?.toList.map .reported ++ [.wrote o]

def itemDeeds (i : Nat) (load : Option (Nat × Load Value)) (w : World) : Item → List (Deed Value)
  | .set o => [.wrote o]
  | .report e => [.reported e]
  | .emitAll items =>
      match load with
      | none => []
      | some (c, _) =>
          if w.supervisor.isCancelled i then []
          else tally (forwardItem i c) (fun _ => forwarded) w items
  | _ => []

def endDeeds (w : World) (load : Option (Nat × Load Value)) (r : Except TaskError Unit) :
    List (Deed Value) :=
  match load with
  | none => []
  | some (c, l) =>
      .returned r :: match l.conclude (w.cell c) r with
        | (none, _) => []
        | (some e, cell, _) => [.failed e, .settled cell.get]

def bodyDeeds (w : World) (i : Nat) (body : Body) : List (Deed Value) :=
  tally (act i body.name body.load) (itemDeeds i body.load) w body.rest ++
    match runScript (act i body.name body.load) w body.rest with
    | (v, .completed) => endDeeds v body.load (.ok ())
    | (v, .finished (.gaveUp e)) => endDeeds v body.load (.error e)
    | _ => []

def linesOf (who : Option (Loader Value)) (deeds : List (Deed Value)) : Record :=
  who.toList.flatMap fun who => deeds.map (.load who)

namespace World

def loader? (w : World) (i : Nat) : Option (Loader Value) :=
  (w.supervisor.keyOf i).bind fun key =>
    (w.bodies[i]?.bind Body.load).map fun load => ⟨i, key, load.1, load.2⟩

def record (w : World) : Task → Record
  | .program (.supervised i (some body)) => linesOf (w.loader? i) (bodyDeeds w i body)
  | .program (.supervised i none) =>
      if (w.supervisor.awaits i).isSome || w.supervisor.isCancelled i then []
      else
        let (v, body) := callBody (Hosting.input w (.begin i)) i
        let seeded := body.load.toList.map fun load => .seeded (.progress load.2.seed)
        linesOf (w.loader? i) (seeded ++ bodyDeeds v i body)
  | _ => []

/-! ## Runs -/

def perform (w : World) : Act → World
  | .step s => (w.take s).1.tidy
  | .turn id => Hosted.runTurn w id
  | .clock target => update w (·.moveClock target)

def admits (w : World) : Act → Bool
  | .step (.advance _) | .step .settle => false
  | .step _ => true
  | .turn id => w.executor.ready.contains id
  | .clock target =>
      w.executor.ready.isEmpty && decide (w.executor.now ≤ target) &&
        w.executor.timers.all fun t => target ≤ t.deadline

def after (w : World) (acts : List Act) : World := acts.foldl perform w

def orderly (w : World) : List Act → Bool
  | [] => true
  | a :: rest => w.admits a && (w.perform a).orderly rest

theorem orderly_cons (w : World) (a : Act) (rest : List Act) :
    w.orderly (a :: rest) = true ↔ w.admits a = true ∧ (w.perform a).orderly rest = true := by
  simp [orderly]

def entries (w : World) : Act → Record
  | .step (.set name o) => [.set (w.cellNamed name).1 o]
  | .step (.reportError o) =>
      if w.owned && w.managed then o.error?.toList.map .report else []
  | .turn id =>
      if w.executor.doomed.contains id then []
      else ((w.executor.task? id).map (update w (·.call id)).record).getD []
  | _ => []

def log (w : World) : List Act → Record
  | [] => []
  | a :: rest => w.entries a ++ (w.perform a).log rest

theorem loader?_eq_some_iff {w : World} {i : Nat} {who : Loader Value} :
    w.loader? i = some who ↔ who.task = i ∧ w.supervisor.keyOf i = some who.key ∧
      w.bodies[i]?.bind Body.load = some (who.cell, who.load) := by
  obtain ⟨task, key, cell, load⟩ := who
  simp only [loader?, Option.bind_eq_some_iff, Option.map_eq_some_iff, Loader.mk.injEq]
  constructor
  · rintro ⟨_, hkey, ⟨c, l⟩, hload, rfl, rfl, rfl, rfl⟩
    exact ⟨rfl, hkey, hload⟩
  · rintro ⟨rfl, hkey, hload⟩
    exact ⟨key, hkey, (cell, load), hload, rfl, rfl, rfl, rfl⟩

end World

end Lifecycle.Supervisor.Scenario
