import Lifecycle.Proofs.Executor.Sleep
import Lifecycle.Proofs.Subscribers.Desk
import Lifecycle.Proofs.Subscribers.Runs

/-!
# Secluded subscribers

In a secluded world a subscriber has nothing to do with the others.  What it does with an event
follows from its habit and its memory, and it does nothing to the set or to other tasks.  Then the
turn of a worker passes by all the other workers: it leaves their queues as they are and wakes none
of them.
-/

namespace Lifecycle.Subscribers

/-- A world in which each subscriber has its habit and its memory. -/
class HasHabits (W : Type) {σ τ η : outParam Type} (μ : outParam Type) [Handling W σ τ η] where
  habit : W → Nat → Habit σ η μ
  memory : W → Nat → μ

open HasHabits (habit memory)

namespace State

variable {s : State} {given : Input} {k : Nat}

def PassesBy (given : Input) (k : Nat) : Prop :=
  match given with
  | .stop | .release => True
  | .take j | .handled j _ | .finish j => j ≠ k
  | .emit _ | .listen _ | .hear _ _ | .unlisten => False

theorem channel_step (passes : PassesBy given k) :
    (s.step given).1.channels[k]? = s.channels[k]? := by
  have hdeals := step_deals s given
  generalize (s.step given).1.channels = channels, (s.step given).2 = effects at hdeals
  cases hdeals with
  | offers offered => cases given <;> first | cases offered | exact passes.elim
  | @takes j | @returns j | @ends j =>
      have hne : j ≠ k := passes
      simp [hne]
  | lags => exact passes.elim
  | rests => rfl

theorem no_task (passes : PassesBy given k) (r : Receiver) : given ≠ .listen r := by
  rintro rfl
  exact passes

theorem deaf_step (passes : PassesBy given k) (deaf : s.listener.isListening = false) :
    (s.step given).1.listener.isListening = false := by
  rw [isListening_step (no_task passes) (by rintro rfl; exact passes), deaf]

end State

namespace Hosting

open HasExecutor

variable {W σ τ η μ : Type} [Handling W σ τ η] [HasHabits W μ] {u v w : W} {k : Nat} {id : TaskId}

/-! ## What does not reach a worker -/

structure Apart (k : Nat) (id : TaskId) (w v : W) : Prop where
  now : HasExecutor.now v = HasExecutor.now w
  habit : HasHabits.habit v k = HasHabits.habit w k
  job : ∀ hand, Job w id (.worker k hand) → Job v id (.worker k hand)
  ready : ∀ hand, Job w id (.worker k hand) → id ∈ (executor w).ready → id ∈ (executor v).ready
  asleep : ∀ hand signals deadline, Job w id (.worker k hand) →
    (∀ s ∈ signals, (HasHabits.habit w k).signals s) →
      (executor w).Asleep id signals deadline → (executor v).Asleep id signals deadline

namespace Apart

theorem of_eq (executor : HasExecutor.executor v = HasExecutor.executor w)
    (habit : HasHabits.habit v k = HasHabits.habit w k) : Apart k id w v where
  now := congrArg Executor.now executor
  habit := habit
  job hand job := by rwa [Job, executor]
  ready _ _ := by rw [executor]; exact fun ready => ready
  asleep _ _ _ _ _ asleep := by rwa [executor]

theorem refl (w : W) : Apart k id w w := .of_eq rfl rfl

theorem trans (h₁ : Apart k id w v) (h₂ : Apart k id v u) : Apart k id w u where
  now := h₂.now.trans h₁.now
  habit := h₂.habit.trans h₁.habit
  job hand job := h₂.job hand (h₁.job hand job)
  ready hand job ready := h₂.ready hand (h₁.job hand job) (h₁.ready hand job ready)
  asleep hand signals deadline job within asleep :=
    h₂.asleep hand signals deadline (h₁.job hand job) (h₁.habit ▸ within)
      (h₁.asleep hand signals deadline job within asleep)

end Apart

/-- Something is done that has to do neither with the set nor with the worker of that subscriber. -/
structure Quiet (k : Nat) (w v : W) : Prop extends Frame w v where
  apart : ∀ id, Apart k id w v
  unready : ∀ id hand, Job w id (.worker k hand) → (executor w).running = some id →
    id ∉ (executor w).ready → id ∉ (executor v).ready

structure Still (k : Nat) (w v : W) : Prop extends Quiet k w v where
  memory : HasHabits.memory v k = HasHabits.memory w k

theorem Quiet.of_eq (executor : HasExecutor.executor v = HasExecutor.executor w)
    (state : Hosting.state v = Hosting.state w)
    (habit : HasHabits.habit v k = HasHabits.habit w k) : Quiet k w v :=
  ⟨.of_eq executor state, fun _ => .of_eq executor habit, fun _ _ _ _ unready => by rwa [executor]⟩

theorem Quiet.of_frame (frame : Frame w v) (now : HasExecutor.now v = HasExecutor.now w)
    (habit : HasHabits.habit v k = HasHabits.habit w k)
    (asleep : ∀ id hand signals deadline, Job w id (.worker k hand) →
      (∀ s ∈ signals, (HasHabits.habit w k).signals s) →
        (executor w).Asleep id signals deadline → (executor v).Asleep id signals deadline)
    (unready : ∀ id hand, Job w id (.worker k hand) → (executor w).running = some id →
      id ∉ (executor w).ready → id ∉ (executor v).ready) : Quiet k w v :=
  ⟨frame, fun id => ⟨now, habit, fun _ => (frame.job id _).mpr, fun _ => frame.ready id _,
    asleep id⟩, unready⟩

theorem Quiet.trans (h₁ : Quiet k w v) (h₂ : Quiet k v u) : Quiet k w u where
  toFrame := h₁.toFrame.trans h₂.toFrame
  apart id := (h₁.apart id).trans (h₂.apart id)
  unready id hand job turn unready :=
    h₂.unready id hand ((h₁.job id _).mpr job) ((h₁.running id _ job).mpr turn)
      (h₁.unready id hand job turn unready)

theorem Still.trans (h₁ : Still k w v) (h₂ : Still k v u) : Still k w u :=
  ⟨h₁.toQuiet.trans h₂.toQuiet, h₂.memory.trans h₁.memory⟩

structure Avoids (k : Nat) (id : TaskId) (w v : W) : Prop extends Apart k id w v where
  memory : HasHabits.memory v k = HasHabits.memory w k
  channel : (state v).channels[k]? = (state w).channels[k]?
  deaf : (state w).listener.isListening = false → (state v).listener.isListening = false

theorem Avoids.trans (h₁ : Avoids k id w v) (h₂ : Avoids k id v u) : Avoids k id w u where
  toApart := h₁.toApart.trans h₂.toApart
  memory := h₂.memory.trans h₁.memory
  channel := h₂.channel.trans h₁.channel
  deaf deaf := h₂.deaf (h₁.deaf deaf)

theorem Apart.avoids (h : Apart k id w v) (memory : HasHabits.memory v k = HasHabits.memory w k)
    (same : state v = state w) : Avoids k id w v :=
  ⟨h, memory, by rw [same], fun deaf => by rwa [same]⟩

theorem Avoids.refl (w : W) : Avoids k id w w := (Apart.refl w).avoids rfl rfl

theorem Still.avoids (h : Still k w v) (id : TaskId) : Avoids k id w v :=
  (h.apart id).avoids h.memory h.state

end Hosting

open Hosting

/-- A world whose subscribers keep to their habits and to themselves. -/
class Secluded (W : Type) {σ τ η μ : outParam Type} [DecidableEq σ] [Handling W σ τ η]
    [HasHabits W μ] : Prop extends LawfulHandling W where
  habit_withExecutor : ∀ (w : W) x k, habit (HasExecutor.withExecutor w x) k = habit w k
  habit_withState : ∀ (w : W) s k, habit (Hosting.withState w s) k = habit w k
  habit_withBus : ∀ (w : W) b k, habit (Hosting.withBus w b) k = habit w k
  memory_withExecutor : ∀ (w : W) x k, memory (HasExecutor.withExecutor w x) k = memory w k
  memory_withState : ∀ (w : W) s k, memory (Hosting.withState w s) k = memory w k
  memory_withBus : ∀ (w : W) b k, memory (Hosting.withBus w b) k = memory w k
  called : ∀ (w : W) k e,
    (memory (Handling.callHandler w k e).1 k, (Handling.callHandler w k e).2) =
      (habit w k).call (HasExecutor.now w) (memory w k) e
  ran : ∀ (w : W) k handler, (habit w k).places handler →
    (memory (Handling.runHandler w k handler).1 k, (Handling.runHandler w k handler).2) =
      (habit w k).run (HasExecutor.now w) (memory w k) handler
  outside : ∀ (w : W) k s, ¬(habit w k).signals (Hosting.toSignal W s)
  quiet_call : ∀ (w : W) j e k, Quiet k w (Handling.callHandler w j e).1
  quiet_run : ∀ (w : W) j handler k, Quiet k w (Handling.runHandler w j handler).1
  memory_call : ∀ (w : W) j e k, j ≠ k →
    memory (Handling.callHandler w j e).1 k = memory w k
  memory_run : ∀ (w : W) j handler k, j ≠ k →
    memory (Handling.runHandler w j handler).1 k = memory w k

namespace Hosting

open HasExecutor

variable {W σ τ η μ : Type} [DecidableEq σ] [Handling W σ τ η] [HasHabits W μ] [Secluded W]
  {u v w : W}
  {j k : Nat} {id other : TaskId} {given : Input}

theorem habit_update (w : W) (f : Executor σ τ → Executor σ τ) (k : Nat) :
    habit (update w f) k = habit w k :=
  Secluded.habit_withExecutor w _ k

theorem memory_update (w : W) (f : Executor σ τ → Executor σ τ) (k : Nat) :
    memory (update w f) k = memory w k :=
  Secluded.memory_withExecutor w _ k

/-! ## Inputs -/

theorem still_signal (w : W) {a : σ} (other : ¬(habit w k).signals a) : Still k w (signal w a) := by
  have hexecutor : executor (signal w a) = (executor w).signal a := executor_update w _
  refine ⟨.of_frame (frame_signal w a) ?_ (habit_update w _ k)
    (fun id hand signals deadline _ within asleep => ?_) fun id hand _ turn unready => ?_,
    memory_update w _ k⟩
  · rw [now, hexecutor, ((executor w).keeps_signal a).now, now]
  · rw [hexecutor]
    exact asleep.signal fun mem => other (within a mem)
  · rw [hexecutor]
    exact Executor.unready_signal unready (.inl turn)

theorem still_publish (w : W) (e : Event) : Still k w (publish w e) :=
  have hbus : Still k w (withBus w ((bus w).publish e)) :=
    ⟨.of_eq (LawfulHosting.executor_withBus w _) (LawfulHosting.state_withBus w _)
      (Secluded.habit_withBus w _ k), Secluded.memory_withBus w _ k⟩
  hbus.trans (still_signal _ (Secluded.outside _ k _))

theorem still_performAll (w : W) {effects : List Effect} (no_task : .startListener ∉ effects) :
    Still k w (effects.foldl perform w) := by
  induction effects generalizing w with
  | nil => exact ⟨.of_eq rfl rfl rfl, rfl⟩
  | cons e rest ih =>
      have hfirst : Still k w (perform w e) := by
        cases e with
        | publish e => exact still_publish w e
        | signal s => exact still_signal w (Secluded.outside w k s)
        | startListener => exact absurd List.mem_cons_self no_task
        | handle => exact ⟨.of_eq rfl rfl rfl, rfl⟩
      exact hfirst.trans (ih _ fun mem => no_task (List.mem_cons_of_mem e mem))

theorem still_input (w : W) (no_task : ∀ r, given ≠ .listen r) :
    Still k (withState w ((state w).step given).1) (input w given) :=
  still_performAll _ (State.startListener_not_mem_step no_task)

theorem apart_input (w : W) (no_task : ∀ r, given ≠ .listen r) (k : Nat) (id : TaskId) :
    Apart k id w (input w given) :=
  have hstate : Apart k id w (withState w ((state w).step given).1) :=
    .of_eq (LawfulHosting.executor_withState w _) (Secluded.habit_withState w _ k)
  hstate.trans ((still_input w no_task).apart id)

theorem memory_input (w : W) (no_task : ∀ r, given ≠ .listen r) (k : Nat) :
    memory (input w given) k = memory w k :=
  have hstill : Still k _ (input w given) := still_input w no_task
  hstill.memory.trans (Secluded.memory_withState w _ k)

include μ in
theorem unready_input {hand : Option η} (no_task : ∀ r, given ≠ .listen r)
    (job : Job w id (.worker k hand)) (turn : (executor w).running = some id)
    (unready : id ∉ (executor w).ready) : id ∉ (executor (input w given)).ready := by
  have hsame := LawfulHosting.executor_withState w ((state w).step given).1
  have hstill : Still k _ (input w given) := still_input w no_task
  refine hstill.unready id hand ?_ ?_ ?_
  · rwa [Job, hsame]
  · rwa [hsame]
  · rwa [hsame]

theorem avoids_input (w : W) (given : Input) (passes : State.PassesBy given k) (id : TaskId) :
    Avoids k id w (input w given) where
  toApart := apart_input w (State.no_task passes) k id
  memory := memory_input w (State.no_task passes) k
  channel := by rw [state_input, State.channel_step passes]
  deaf deaf := by rw [state_input, State.deaf_step passes deaf]

/-! ## Other tasks -/

theorem still_spawn (numbered : (executor w).Numbered) {program : τ}
    (foreign : ∀ p, program ≠ Hosting.toTask W p) : Still k w (spawn w program) := by
  have hexecutor : executor (spawn w program) = (executor w).spawn program := executor_update w _
  have hold {id : TaskId} {p : Program η} (job : Job w id p) : id ≠ (executor w).nextTask :=
    Nat.ne_of_lt (numbered.tasks id job.present)
  refine ⟨.of_frame (frame_spawn numbered foreign) ?_ (habit_update w _ k)
    (fun id hand signals deadline job _ asleep => ?_) fun id hand job _ unready => ?_,
    memory_update w _ k⟩
  · rw [now, hexecutor]
    rfl
  · rw [hexecutor]
    exact asleep.spawn program (hold job)
  · rw [hexecutor]
    simpa [Executor.spawn, unready] using hold job

theorem still_call (rests : (executor w).running = none)
    (present : ((executor w).task? other).isSome = true) (foreign : ∀ p, ¬Job w other p) :
    Still k w (update w (·.call other)) := by
  have hexecutor : executor (update w (·.call other)) = (executor w).call other :=
    executor_update w _
  refine ⟨.of_frame (frame_call rests present foreign) ?_ (habit_update w _ k)
    (fun id hand signals deadline _ _ asleep => ?_) fun id hand _ turn _ => ?_,
    memory_update w _ k⟩
  · rw [now, hexecutor]
    rfl
  · rw [hexecutor]
    exact asleep.call other
  · rw [rests] at turn
    cases turn

theorem still_retire (turn : (executor w).running = some other) (foreign : ∀ p, ¬Job w other p) :
    Still k w (update w (·.retire other)) := by
  have hexecutor : executor (update w (·.retire other)) = (executor w).left other .ended :=
    executor_update w _
  have hne {id : TaskId} {p : Program η} (job : Job w id p) : id ≠ other := by
    rintro rfl
    exact foreign p job
  refine ⟨.of_frame (frame_retire turn foreign) ?_ (habit_update w _ k)
    (fun id hand signals deadline job _ asleep => ?_) fun id hand job turn' _ => ?_,
    memory_update w _ k⟩
  · rw [now, hexecutor, (Executor.keeps_left turn _).now, now]
  · rw [hexecutor]
    exact asleep.left (hne job) .ended
  · exact absurd (Option.some.inj (turn'.symm.trans turn)) (hne job)

/-! ## The turns of others -/

theorem avoids_callHandler (w : W) (ne : j ≠ k) (id : TaskId) (e : Event) :
    Avoids k id w (Handling.callHandler w j e).1 :=
  have hquiet := Secluded.quiet_call w j e k
  (hquiet.apart id).avoids (Secluded.memory_call w j e k ne) hquiet.state

theorem avoids_runHandler (w : W) (ne : j ≠ k) (id : TaskId) (handler : η) :
    Avoids k id w (Handling.runHandler w j handler).1 :=
  have hquiet := Secluded.quiet_run w j handler k
  (hquiet.apart id).avoids (Secluded.memory_run w j handler k ne) hquiet.state

theorem avoids_next (w : W) (ne : j ≠ k) (id : TaskId) : Avoids k id w (Handling.next w j).1 := by
  rw [Handling.next]
  split
  · have htakes : Avoids k id w (input w (.take j)) := avoids_input w (.take j) ne id
    exact htakes.trans (avoids_callHandler _ ne id _)
  · split
    · exact .refl w
    · exact avoids_input w (.finish j) ne id

theorem avoids_serve (ne : j ≠ k) (id : TaskId) (fuel : Nat) (w : W) (handler : η) :
    Avoids k id w (Handling.serve j fuel w handler).1 := by
  induction fuel generalizing w handler with
  | zero =>
      have hran := avoids_runHandler w ne id handler
      rw [Handling.serve]
      generalize Handling.runHandler w j handler = result at hran
      obtain ⟨u, ⟨next, signals, deadline⟩ | panic⟩ := result
      · exact hran
      · exact hran.trans (avoids_input u (.handled j panic) ne id)
  | succ fuel ih =>
      have hran := avoids_runHandler w ne id handler
      rw [Handling.serve]
      generalize Handling.runHandler w j handler = result at hran
      obtain ⟨u, ⟨next, signals, deadline⟩ | panic⟩ := result
      · exact hran
      · have hreturned : Avoids k id w (input u (.handled j panic)) :=
          hran.trans (avoids_input u (.handled j panic) ne id)
        have hnext := hreturned.trans (avoids_next _ ne id)
        dsimp only
        generalize Handling.next (input u (.handled j panic)) j = result at hnext
        obtain ⟨v, later | rest⟩ := result
        · exact hnext.trans (ih v later)
        · exact hnext

theorem avoids_turn (w : W) (ne : j ≠ k) (id : TaskId) (hand : Option η) :
    Avoids k id w (Handling.turn w (.worker j hand)).1 := by
  cases hand with
  | some handler => exact avoids_serve ne id _ w handler
  | none =>
      have hnext := avoids_next w ne id
      rw [Handling.turn]
      generalize Handling.next w j = result at hnext
      obtain ⟨v, handler | rest⟩ := result
      · exact hnext.trans (avoids_serve ne id _ v handler)
      · exact hnext

theorem avoids_call (w : W) (ne : id ≠ other) : Avoids k id w (update w (·.call other)) := by
  have hexecutor : executor (update w (·.call other)) = (executor w).call other :=
    executor_update w _
  refine Apart.avoids ⟨?_, habit_update w _ k, fun hand job => ?_, fun hand _ ready => ?_,
    fun hand signals deadline _ _ asleep => ?_⟩ (memory_update w _ k) (state_update w _)
  · rw [now, hexecutor]
    rfl
  · rw [Job, hexecutor]
    exact job
  · rw [hexecutor]
    exact List.mem_filter.mpr ⟨ready, by simpa using ne⟩
  · rw [hexecutor]
    exact asleep.call other

theorem avoids_left (w : W) (turn : (executor w).running = some other) (ne : id ≠ other)
    (rest : Rest σ τ) : Avoids k id w (update w (·.left other rest)) := by
  have hexecutor : executor (update w (·.left other rest)) = (executor w).left other rest :=
    executor_update w _
  have hkeeps := Executor.keeps_left turn rest
  have hother : some other ≠ some id := fun heq => ne (Option.some.inj heq).symm
  refine Apart.avoids ⟨?_, habit_update w _ k, fun hand job => ?_, fun hand _ ready => ?_,
    fun hand signals deadline _ _ asleep => ?_⟩ (memory_update w _ k) (state_update w _)
  · rw [now, hexecutor, hkeeps.now, now]
  · rw [Job, hexecutor, hkeeps.task id hother]
    exact job
  · rw [hexecutor]
    exact hkeeps.ready id hother ready
  · rw [hexecutor]
    exact asleep.left ne rest

end Hosting

end Lifecycle.Subscribers
