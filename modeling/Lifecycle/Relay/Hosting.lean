import Lifecycle.Gate.Hosting
import Lifecycle.Relay.State

/-!
# A relay among the tasks of an executor

A world that hosts a relay hosts its gate.  What the steps of the gate put into an inbox, or the end
of an inbox, is a signal for whoever reads it.
-/

namespace Lifecycle.Relay

class Hosting (W : Type) (σ τ η : outParam Type) extends HasExecutor W σ τ where
  toSignal : Gate.Wait → σ
  toInbox : Nat → σ
  toTask : Gate.Task η → τ
  ofTask? : τ → Option (Gate.Task η)
  relay : W → State
  withRelay : W → State → W
  timer : W → Debouncer
  withTimer : W → Debouncer → W
  publish : W → Event → W
  report : W → Report → W
  isHeld : W → Bool

/-- A consumer: its inbox and its place among the consumers of the gate. -/
structure Consumer where
  inbox : Nat
  id : Gate.ConsumerId
  deriving DecidableEq, Repr

namespace Hosting

open HasExecutor

variable {W σ τ η : Type} [Hosting W σ τ η] [DecidableEq σ]

def tell (w : W) (inboxes : List Nat) : W :=
  inboxes.foldl (fun w k => signal w (Hosting.toInbox W k)) w

def named : Effect → List Nat
  | .replay _ k | .offer k _ | .close k | .part k => [k]
  | _ => []

instance : Gate.Hosting W σ τ Nat (Option Value) η where
  toSignal := Hosting.toSignal W
  toTask := Hosting.toTask W
  ofTask? := Hosting.ofTask? W
  state w := (relay w).gate
  timer := timer
  withTimer := withTimer
  step w i :=
    let (r, effects) := (relay w).step i
    (withRelay w r, effects)
  consumer w e := tell w (named e)
  publish := publish
  report := report
  isHeld := isHeld

def emit (w : W) (i : Nat) (v : Value) : W × Except ProducerError Unit :=
  let (r, result) := (relay w).emit i v
  let gate := (relay w).gate
  (tell (withRelay w r) (if gate.isCurrent i then gate.roster.members else []), result)

def complete (w : W) (i : Nat) : W × Bool :=
  (Gate.Hosting.input w (.complete i), (relay w).gate.isCurrent i)

def fail (w : W) (i : Nat) (e : ProducerError) : W := Gate.Hosting.input w (.fail i e)

def attach (w : W) : W × Consumer :=
  let r := relay w
  let c : Consumer := { inbox := r.inboxes.length, id := r.gate.roster.nextId }
  (Gate.Hosting.input (withRelay w r.addInbox) (.attach c.inbox), c)

def abandon (w : W) (c : Consumer) : W :=
  Gate.Hosting.input (withRelay w ((relay w).modifyInbox c.inbox (·.abandon))) (.release c.id)

def unread (w : W) (c : Consumer) : List Item :=
  match (relay w).inboxes[c.inbox]? with
  | none => []
  | some b => b.unread

def take (w : W) (c : Consumer) : W × Inbox.Taken :=
  match (relay w).inboxes[c.inbox]? with
  | none => (w, .closed)
  | some b =>
      let (taken, b) := b.take
      (withRelay w ((relay w).modifyInbox c.inbox fun _ => b), taken)

def takeAll (w : W) (c : Consumer) : W × List Item :=
  (withRelay w ((relay w).modifyInbox c.inbox fun b => b.takeAll.2), unread w c)

end Hosting

end Lifecycle.Relay
