import Lifecycle.Gate.Hosting
import Lifecycle.Proofs.Gate.Run
import Lifecycle.Proofs.Hosting.Tasks

/-!
# Worlds that host a gate lawfully

What else goes on in a world does not touch the gate, its debouncer and its tasks: no task of the
gate is removed, moved or held up.  `Frame` says so for all tasks of the gate, or for all but one.
-/

namespace Lifecycle.Gate.Hosting

open HasExecutor

variable {W σ τ γ κ η : Type} [Hosting W σ τ γ κ η]

def job? (w : W) (id : TaskId) : Option (Task η) :=
  ((executor w).task? id).bind (Hosting.ofTask? W)

theorem task?_isSome {w : W} {id : TaskId} (present : (job? w id).isSome = true) :
    ((executor w).task? id).isSome = true := by
  cases hget : (executor w).task? id with
  | some p => rfl
  | none =>
      rw [job?, hget] at present
      cases present

/-- The gate, its debouncer and its tasks are as before, but for the task with the number `skip`. -/
structure Frame (skip : Option TaskId) (w v : W) : Prop where
  state : Hosting.state v = Hosting.state w
  timer : Hosting.timer v = Hosting.timer w
  now : HasExecutor.now v = HasExecutor.now w
  numbered : (executor w).Numbered → (executor v).Numbered
  job : ∀ id, skip ≠ some id → job? v id = job? w id
  running : ∀ id, skip ≠ some id → (job? w id).isSome = true →
    ((executor v).running = some id ↔ (executor w).running = some id)
  ready : ∀ id, skip ≠ some id → (job? w id).isSome = true →
    id ∈ (executor w).ready → id ∈ (executor v).ready
  waits : ∀ id a, skip ≠ some id → (job? w id).isSome = true → (executor w).running ≠ some id →
    (a, id) ∈ (executor w).waits → (a, id) ∈ (executor v).waits ∨ id ∈ (executor v).ready
  timers : ∀ id deadline, skip ≠ some id → (job? w id).isSome = true →
    ⟨deadline, id⟩ ∈ (executor w).timers → ⟨deadline, id⟩ ∈ (executor v).timers

namespace Frame

variable {skip : Option TaskId} {u v w : W}

theorem refl (w : W) : Frame skip w w where
  state := rfl
  timer := rfl
  now := rfl
  numbered := id
  job _ _ := rfl
  running _ _ _ := Iff.rfl
  ready _ _ _ := id
  waits _ _ _ _ _ := .inl
  timers _ _ _ _ := id

theorem present (h : Frame skip w v) {id : TaskId} (other : skip ≠ some id)
    (present : (job? w id).isSome = true) : (job? v id).isSome = true := by
  rwa [h.job id other]

theorem trans (h₁ : Frame skip w v) (h₂ : Frame skip v u) : Frame skip w u where
  state := h₂.state.trans h₁.state
  timer := h₂.timer.trans h₁.timer
  now := h₂.now.trans h₁.now
  numbered h := h₂.numbered (h₁.numbered h)
  job id other := (h₂.job id other).trans (h₁.job id other)
  running id other present :=
    (h₂.running id other (h₁.present other present)).trans (h₁.running id other present)
  ready id other present hready :=
    h₂.ready id other (h₁.present other present) (h₁.ready id other present hready)
  waits id a other present idle hwaits := by
    have hpresent := h₁.present other present
    have hidle := mt (h₁.running id other present).mp idle
    rcases h₁.waits id a other present idle hwaits with hkept | hready
    · exact h₂.waits id a other hpresent hidle hkept
    · exact .inr (h₂.ready id other hpresent hready)
  timers id deadline other present htimer :=
    h₂.timers id deadline other (h₁.present other present)
      (h₁.timers id deadline other present htimer)

end Frame

theorem frame_of_keeps {skip : Option TaskId} {w v : W}
    (h : (executor w).Keeps skip (executor v)) (state : state v = state w)
    (timer : timer v = timer w) : Frame skip w v where
  state := state
  timer := timer
  now := h.now
  numbered := h.numbered
  job id other := by rw [job?, job?, h.task id other]
  running id other present := h.running id other (task?_isSome present)
  ready id other _ := h.ready id other
  waits id a other present := h.waits id a other (task?_isSome present)
  timers id deadline other _ := h.timers id deadline other

end Hosting

/-- A world that keeps executor, gate and debouncer apart, and all else apart from them. -/
class LawfulHosting (W : Type) {σ τ γ κ η : outParam Type} [Inhabited κ]
    [Hosting W σ τ γ κ η] : Prop where
  executor_withExecutor : ∀ (w : W) x, HasExecutor.executor (HasExecutor.withExecutor w x) = x
  state_withExecutor : ∀ (w : W) x, Hosting.state (HasExecutor.withExecutor w x) = Hosting.state w
  timer_withExecutor : ∀ (w : W) x, Hosting.timer (HasExecutor.withExecutor w x) = Hosting.timer w
  executor_withTimer : ∀ (w : W) d,
    HasExecutor.executor (Hosting.withTimer w d) = HasExecutor.executor w
  state_withTimer : ∀ (w : W) d, Hosting.state (Hosting.withTimer w d) = Hosting.state w
  timer_withTimer : ∀ (w : W) d, Hosting.timer (Hosting.withTimer w d) = d
  executor_step : ∀ (w : W) i,
    HasExecutor.executor (Hosting.step w i).1 = HasExecutor.executor w
  timer_step : ∀ (w : W) i, Hosting.timer (Hosting.step w i).1 = Hosting.timer w
  step : ∀ (w : W) i, ∃ accepts,
    Hosting.state (Hosting.step w i).1 = ((Hosting.state w).step accepts i).1 ∧
      (Hosting.step w i).2 = ((Hosting.state w).step accepts i).2
  ofTask_toTask : ∀ t, Hosting.ofTask? W (Hosting.toTask W t) = some t
  publish : ∀ (w : W) e, Hosting.Frame none w (Hosting.publish w e)
  report : ∀ (w : W) r, Hosting.Frame none w (Hosting.report w r)
  consumer : ∀ (w : W) e, Hosting.Frame none w (Hosting.consumer w e)

namespace Hosting

open HasExecutor

section Lawful

variable {W σ τ γ κ η : Type} [Inhabited κ] [Hosting W σ τ γ κ η] [LawfulHosting W]
  {skip : Option TaskId} {w v : W}

@[simp] theorem executor_update (w : W) (f : Executor σ τ → Executor σ τ) :
    executor (update w f) = f (executor w) :=
  LawfulHosting.executor_withExecutor w _

@[simp] theorem state_update (w : W) (f : Executor σ τ → Executor σ τ) :
    state (update w f) = state w :=
  LawfulHosting.state_withExecutor w _

@[simp] theorem timer_update (w : W) (f : Executor σ τ → Executor σ τ) :
    timer (update w f) = timer w :=
  LawfulHosting.timer_withExecutor w _

theorem frame_update {f : Executor σ τ → Executor σ τ}
    (h : (executor w).Keeps skip (f (executor w))) : Frame skip w (update w f) := by
  apply frame_of_keeps
  · rw [executor_update]
    exact h
  · exact state_update w f
  · exact timer_update w f

theorem frame_signal [DecidableEq σ] (w : W) (s : σ) : Frame none w (signal w s) :=
  frame_update ((executor w).keeps_signal s)

theorem frame_spawn (w : W) (program : τ) :
    Frame (some (executor w).nextTask) w (spawn w program) :=
  frame_update ((executor w).keeps_spawn program)

theorem job?_spawn (numbered : (executor w).Numbered) (t : Task η) :
    job? (spawn w (Hosting.toTask W t)) (executor w).nextTask = some t := by
  rw [job?, spawn, executor_update, Executor.task?_spawn numbered]
  exact LawfulHosting.ofTask_toTask t

end Lawful

end Hosting

end Lifecycle.Gate
