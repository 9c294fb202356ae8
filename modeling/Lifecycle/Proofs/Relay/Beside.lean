import Lifecycle.Proofs.Executor.Turns
import Lifecycle.Proofs.Hosting.Rest
import Lifecycle.Proofs.Relay.Staying
import Lifecycle.Relay.Scenario

/-!
# What goes on beside a relay

Whatever a relay is asked for, it changes its own state, its debouncer, the queue and the journal,
and it adds tasks of its gate; nothing else in its world is touched.
-/

namespace Lifecycle.Relay.Scenario

open HasExecutor
open Gate.Hosting (Frame Conduct job?)

variable {turn : Option TaskId} {u v w : World} {x y : Executor Signal Task}

/-! ## A lawful world -/

instance : LawfulExecutor World where
  executor_withExecutor _ _ := rfl
  withExecutor_withExecutor _ _ _ := rfl

theorem frame_signal (w : World) (s : Signal) : Frame none w (HasExecutor.signal w s) :=
  Gate.Hosting.frame_of_keeps (w.executor.keeps_signal s) rfl rfl

theorem frame_tell (inboxes : List Nat) (w : World) : Frame none w (Hosting.tell w inboxes) := by
  induction inboxes generalizing w with
  | nil => exact .refl w
  | cons k rest ih => exact (frame_signal w _).trans (ih _)

instance : Gate.LawfulHosting World where
  executor_withExecutor _ _ := rfl
  state_withExecutor _ _ := rfl
  timer_withExecutor _ _ := rfl
  executor_withTimer _ _ := rfl
  state_withTimer _ _ := rfl
  timer_withTimer _ _ := rfl
  executor_step _ _ := rfl
  timer_step _ _ := rfl
  step w i := ⟨w.relay.accepts, w.relay.gate_step i, rfl⟩
  ofTask_toTask _ := rfl
  publish _ _ := Gate.Hosting.frame_of_eq rfl rfl rfl
  report _ _ := Gate.Hosting.frame_of_eq rfl rfl rfl
  consumer w e := frame_tell (Hosting.named e) w

/-! ## The other tasks -/

def Task.isErrand : Task → Bool
  | .gate t => !Gate.Hosting.Task.inHook t
  | _ => false

def World.restored (v w : World) : World :=
  { v with
    executor := w.executor, relay := w.relay, timer := w.timer, journal := w.journal
    notes := w.notes }

/-- Nothing has changed but the relay, its debouncer, the journal and the queue, and new tasks are
those of the gate. -/
structure Beside (turn : Option TaskId) (w v : World) : Prop where
  spares : Executor.Spares turn w.executor v.executor
  fresh : ∀ id p, v.executor.task? id = some p →
    (w.executor.task? id).isSome = true ∨ p.isErrand = true
  same : v.restored w = w

namespace Beside

theorem of_same (ordered : w.executor.Ordered turn) (executor : v.executor = w.executor)
    (same : v.restored w = w) : Beside turn w v where
  spares := by
    rw [executor]
    exact .refl ordered
  fresh id p task := by
    rw [← executor, task]
    exact .inl rfl
  same := same

theorem refl (ordered : w.executor.Ordered turn) : Beside turn w w := of_same ordered rfl rfl

theorem trans (h₁ : Beside turn w v) (h₂ : Beside turn v u) : Beside turn w u where
  spares := h₁.spares.trans h₂.spares
  fresh id p task := by
    rcases h₂.fresh id p task with present | errand
    · obtain ⟨q, hq⟩ := Option.isSome_iff_exists.mp present
      rcases h₁.fresh id q hq with hbefore | herrand
      · exact .inl hbefore
      · have hsame := h₂.spares.task id present
        rw [task, hq] at hsame
        cases hsame
        exact .inr herrand
    · exact .inr errand
  same := by
    have hfirst := congrArg (·.restored w) h₂.same
    exact hfirst.trans h₁.same

theorem ordered (h : Beside turn w v) : v.executor.Ordered turn := h.spares.ordered

theorem feed (h : Beside turn w v) : v.feed = w.feed := by
  have hsame := congrArg World.feed h.same
  exact hsame

theorem starts (h : Beside turn w v) : v.starts = w.starts := by
  have hsame := congrArg World.starts h.same
  exact hsame

theorem emitters (h : Beside turn w v) : v.emitters = w.emitters := by
  have hsame := congrArg World.emitters h.same
  exact hsame

theorem opened (h : Beside turn w v) : v.opened = w.opened := by
  have hsame := congrArg World.opened h.same
  exact hsame

theorem consumers (h : Beside turn w v) : v.consumers = w.consumers := by
  have hsame := congrArg World.consumers h.same
  exact hsame

theorem hasHandle (h : Beside turn w v) : v.hasHandle = w.hasHandle := by
  have hsame := congrArg World.hasHandle h.same
  exact hsame

theorem tasks (h : Beside turn w v) (id : TaskId) (p : Task)
    (task : w.executor.task? id = some p) : v.executor.task? id = some p :=
  (h.spares.task id (by rw [task]; rfl)).trans task

theorem task_iff (h : Beside turn w v) {id : TaskId} {p : Task} (other : p.isErrand = false) :
    v.executor.task? id = some p ↔ w.executor.task? id = some p := by
  constructor
  · intro task
    rcases h.fresh id p task with present | errand
    · rw [← h.spares.task id present]
      exact task
    · rw [other] at errand
      cases errand
  · intro task
    rw [h.spares.task id (by rw [task]; rfl), task]

theorem signal (ordered : w.executor.Ordered turn) (s : Signal) :
    Beside turn w (HasExecutor.signal w s) where
  spares := Executor.spares_signal ordered s
  fresh id p task := by
    have hkeeps := (w.executor.keeps_signal s).task id nofun
    rw [← hkeeps]
    exact .inl (by rw [show (w.executor.signal s).task? id = some p from task]; rfl)
  same := rfl

theorem spawn (ordered : w.executor.Ordered turn) {p : Task} (errand : p.isErrand = true) :
    Beside turn w (HasExecutor.spawn w p) where
  spares := Executor.spares_spawn ordered p
  fresh id q task := by
    rcases Executor.task?_of_spawn ordered.toNumbered task with ⟨_, rfl⟩ | hold
    · exact .inr errand
    · rw [hold]
      exact .inl rfl
  same := rfl

theorem tell (inboxes : List Nat) (ordered : w.executor.Ordered turn) :
    Beside turn w (Hosting.tell w inboxes) := by
  induction inboxes generalizing w with
  | nil => exact .refl ordered
  | cons k rest ih =>
      have hfirst := signal ordered (.inbox k)
      exact hfirst.trans (ih hfirst.ordered)

theorem discardJob (ordered : w.executor.Ordered turn) :
    Beside turn w (Gate.Hosting.discardJob w) := by
  have hcleared : Beside turn w { w with timer := w.timer.discard } := of_same ordered rfl rfl
  cases hpending : w.timer.pending with
  | none =>
      have hdiscard : Gate.Hosting.discardJob w = { w with timer := w.timer.discard } := by
        simp only [Gate.Hosting.discardJob, Gate.Hosting.timer, Hosting.timer, hpending]
        rfl
      rw [hdiscard]
      exact hcleared
  | some job =>
      have hdiscard : Gate.Hosting.discardJob w =
          HasExecutor.signal { w with timer := w.timer.discard } (.gate (.discarded job)) := by
        simp only [Gate.Hosting.discardJob, Gate.Hosting.timer, Hosting.timer, hpending]
        rfl
      rw [hdiscard]
      exact hcleared.trans (signal hcleared.ordered _)

theorem scheduleJob (ordered : w.executor.Ordered turn) (delay : Span) (epoch : Option Nat) :
    Beside turn w (Gate.Hosting.scheduleJob w delay epoch) := by
  have hfirst := discardJob ordered
  have hretimed : Beside turn (Gate.Hosting.discardJob w)
      { Gate.Hosting.discardJob w with
        timer := (w.timer.schedule w.executor.now delay).1 } := of_same hfirst.ordered rfl rfl
  exact (hfirst.trans hretimed).trans (spawn hretimed.ordered rfl)

theorem perform (ordered : w.executor.Ordered turn) (e : Effect) :
    Beside turn w (Gate.Hosting.perform w e) := by
  cases e with
  | replay cache k => exact tell _ ordered
  | offer k e => exact tell _ ordered
  | close k => exact tell _ ordered
  | part k => exact tell _ ordered
  | publish e => exact of_same ordered rfl rfl
  | report e => exact of_same ordered rfl rfl
  | signal s => exact signal ordered _
  | startActivation i => exact spawn ordered rfl
  | startTeardown j => exact spawn ordered rfl
  | callActivate i => exact .refl ordered
  | callDeactivate j => exact .refl ordered
  | beginDrain grace epoch => exact scheduleJob ordered grace (some epoch)
  | endDrain => exact scheduleJob ordered .zero none

theorem performed (effects : List Effect) (ordered : w.executor.Ordered turn) :
    Beside turn w (effects.foldl Gate.Hosting.perform w) := by
  induction effects generalizing w with
  | nil => exact .refl ordered
  | cons e rest ih =>
      have hfirst := perform ordered e
      exact hfirst.trans (ih hfirst.ordered)

theorem input (ordered : w.executor.Ordered turn) (i : Input) :
    Beside turn w (Gate.Hosting.input w i) := by
  have hstep : Beside turn w (Gate.Hosting.step w i).1 := of_same ordered rfl rfl
  exact hstep.trans (performed _ hstep.ordered)

end Beside

end Lifecycle.Relay.Scenario
