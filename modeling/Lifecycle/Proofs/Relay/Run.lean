import Lifecycle.Proofs.Relay.Letters

/-!
# Runs of a relay

In each act a consumer comes, a session emits something, a reader takes from its inbox or is gone,
or the gate of the relay takes another input.  The history of a run keeps each act with the state
that it found.
-/

namespace Lifecycle.Relay

inductive Act where
  | attach
  | emit (i : Nat) (v : Value)
  | take (k : Nat)
  | takeAll (k : Nat)
  | abandon (k : Nat)
  | gate (input : Input)

namespace State

def act (s : State) : Act → State
  | .attach => (s.addInbox.step (.attach s.inboxes.length)).1
  | .emit i v => (s.emit i v).1
  | .take k => s.modifyInbox k fun b => b.take.2
  | .takeAll k => s.modifyInbox k fun b => b.takeAll.2
  | .abandon k => s.modifyInbox k (·.abandon)
  | .gate input => (s.step input).1

/-- The act can come about.  Consumers come with an inbox, and the cache changes when a session
emits. -/
def admits (s : State) : Act → Bool
  | .attach => s.gate.admits (.attach s.inboxes.length)
  | .emit i v => s.gate.admits (.update i (s.keep v))
  | .take _ | .takeAll _ | .abandon _ => true
  | .gate (.attach _) | .gate (.update _ _) => false
  | .gate input => s.gate.admits input

def occasion? (s : State) : Act → Option (Gate.Occasion Nat (Option Value))
  | .attach => some ⟨.attach s.inboxes.length, s.addInbox.accepts⟩
  | .emit i v => some ⟨.update i (s.keep v), s.accepts⟩
  | .take _ | .takeAll _ | .abandon _ => none
  | .gate input => some ⟨input, s.accepts⟩

def after (s : State) (acts : List Act) : State := acts.foldl act s

def orderly (s : State) : List Act → Bool
  | [] => true
  | a :: rest => s.admits a && (s.act a).orderly rest

theorem orderly_cons (s : State) (a : Act) (rest : List Act) :
    s.orderly (a :: rest) = true ↔ s.admits a = true ∧ (s.act a).orderly rest = true := by
  simp [orderly]

def fresh (settings : RelaySettings) : State :=
  { gate := Gate.State.fresh settings.name settings.gracePeriod, conflate := settings.conflate }

end State

structure Moment where
  before : State
  act : Act

def Moment.after (m : Moment) : State := m.before.act m.act

def State.history (s : State) : List Act → List Moment
  | [] => []
  | a :: rest => ⟨s, a⟩ :: (s.act a).history rest

namespace State

theorem gate_act (s : State) (a : Act) :
    (s.act a).gate = (s.occasion? a).elim s.gate fun o => (s.gate.take o).1 := by
  cases a with
  | attach => exact s.addInbox.gate_step _
  | emit i v =>
      change (s.emit i v).1.gate = (s.gate.step s.accepts (.update i (s.keep v))).1
      cases hcurrent : s.gate.isCurrent i with
      | true =>
          have hfilled : (s.filled v).gate = s.gate := (frame_foldl_put _ v s).1
          rw [emit_current hcurrent, gate_step, hfilled]
          rfl
      | false =>
          rw [emit_stale hcurrent]
          simp [Gate.State.step, hcurrent]
  | gate input => exact s.gate_step input
  | _ => rfl

theorem conflate_act (s : State) (a : Act) : (s.act a).conflate = s.conflate := by
  cases a with
  | attach => exact s.addInbox.conflate_step _
  | emit i v =>
      change (s.emit i v).1.conflate = s.conflate
      cases hcurrent : s.gate.isCurrent i with
      | true =>
          rw [emit_current hcurrent, conflate_step]
          exact (frame_foldl_put _ v s).2
      | false => rw [emit_stale hcurrent]
  | gate input => exact s.conflate_step input
  | _ => rfl

theorem attached_occasion {s : State} {a : Act} {o : Gate.Occasion Nat (Option Value)}
    (admitted : s.admits a = true) (asked : s.occasion? a = some o) :
    a = .attach ∧ o.input.attached? = some s.inboxes.length ∨
      a ≠ .attach ∧ o.input.attached? = none := by
  cases a with
  | attach =>
      cases asked
      exact .inl ⟨rfl, rfl⟩
  | emit i v =>
      cases asked
      exact .inr ⟨Act.noConfusion, rfl⟩
  | gate input =>
      cases asked
      cases input with
      | attach j => cases admitted
      | _ => exact .inr ⟨Act.noConfusion, rfl⟩
  | _ => cases asked

theorem length_act {s : State} {a : Act} (h : a ≠ .attach) :
    (s.act a).inboxes.length = s.inboxes.length := by
  cases a with
  | attach => exact absurd rfl h
  | emit i v =>
      change (s.emit i v).1.inboxes.length = s.inboxes.length
      cases hcurrent : s.gate.isCurrent i with
      | true =>
          rw [emit_current hcurrent, (posts_step _ _).1]
          exact length_foldl_put _ v s
      | false => rw [emit_stale hcurrent]
  | gate input => exact (s.posts_step input).1
  | take k => exact List.length_modify _ _ _
  | takeAll k => exact List.length_modify _ _ _
  | abandon k => exact List.length_modify _ _ _

theorem length_attach (s : State) : (s.act .attach).inboxes.length = s.inboxes.length + 1 := by
  rw [act, (posts_step _ _).1]
  exact List.length_append

theorem admits_occasion {s : State} {a : Act} {o : Gate.Occasion Nat (Option Value)}
    (admitted : s.admits a = true) (asked : s.occasion? a = some o) :
    s.gate.admits o.input = true := by
  cases a with
  | attach =>
      cases asked
      exact admitted
  | emit i v =>
      cases asked
      exact admitted
  | gate input =>
      cases asked
      cases input with
      | attach j => cases admitted
      | update i f => cases admitted
      | _ => exact admitted
  | _ => cases asked

end State

end Lifecycle.Relay
