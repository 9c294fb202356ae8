import Lifecycle.Gate.Plain
import Lifecycle.Gate.Scenario
import Lifecycle.Proofs.Hosting.Run

/-!
# Lawful worlds

The worlds of plain gates and of scenarios keep their parts apart.
-/

namespace Lifecycle.Gate

namespace Hosting

variable {W σ τ γ κ η : Type} [Hosting W σ τ γ κ η] {v w : W}

theorem frame_of_eq (executor : HasExecutor.executor v = HasExecutor.executor w)
    (state : state v = state w) (timer : timer v = timer w) : Frame none w v where
  state := state
  timer := timer
  now := by rw [HasExecutor.now, HasExecutor.now, executor]
  numbered h := by rwa [executor]
  job id _ := by rw [job?, job?, executor]
  running id _ _ := by rw [executor]
  ready id _ _ h := by rwa [executor]
  waits id a _ _ _ h := by
    rw [executor]
    exact .inl h
  timers id deadline _ _ h := by rwa [executor]

end Hosting

instance : LawfulHosting Plain.World where
  executor_withExecutor _ _ := rfl
  state_withExecutor _ _ := rfl
  timer_withExecutor _ _ := rfl
  executor_withTimer _ _ := rfl
  state_withTimer _ _ := rfl
  timer_withTimer _ _ := rfl
  executor_step _ _ := rfl
  timer_step _ _ := rfl
  step _ _ := ⟨fun _ => false, rfl, rfl⟩
  ofTask_toTask _ := rfl
  publish _ _ := Hosting.frame_of_eq rfl rfl rfl
  report _ _ := Hosting.frame_of_eq rfl rfl rfl
  consumer w _ := .refl w

instance : LawfulHosting Scenario.World where
  executor_withExecutor _ _ := rfl
  state_withExecutor _ _ := rfl
  timer_withExecutor _ _ := rfl
  executor_withTimer _ _ := rfl
  state_withTimer _ _ := rfl
  timer_withTimer _ _ := rfl
  executor_step _ _ := rfl
  timer_step _ _ := rfl
  step _ _ := ⟨Scenario.Consumer.accepts, rfl, rfl⟩
  ofTask_toTask _ := rfl
  publish _ _ := Hosting.frame_of_eq rfl rfl rfl
  report _ _ := Hosting.frame_of_eq rfl rfl rfl
  consumer w e := by cases e <;> exact Hosting.frame_of_eq rfl rfl rfl

namespace Plain

open Hosting

theorem conduct_runActivate (w : World) (i : Nat) :
    Conduct w [] (Hooked.runActivate w i ()).1 := by
  apply Conduct.of_frame
  simp only [Hooked.runActivate]
  split <;> exact frame_of_eq rfl rfl rfl

theorem behaves (w : World) (t : Task) : Behaves w t [] := by
  cases t with
  | activation i hook =>
      cases hook with
      | none =>
          by_cases hcalls : (state w).activationAwaits i = [] ∧
              callsHook (step w (.activate i)).2 = true
          · rw [Behaves, hookRun?, if_pos hcalls]
            have hcalled : Frame none (input w (.activate i))
                (Hooked.callActivate (input w (.activate i)) i).1 := frame_of_eq rfl rfl rfl
            exact .aside hcalled (conduct_runActivate _ i)
          · rw [Behaves, hookRun?, if_neg hcalls]
      | some hook => exact conduct_runActivate w i
  | teardown j hook =>
      cases hook with
      | none =>
          by_cases hcalls : (state w).teardownAwaits j = [] ∧
              callsHook (step w (.deactivate j)).2 = true
          · rw [Behaves, hookRun?, if_pos hcalls]
            exact .done _
          · rw [Behaves, hookRun?, if_neg hcalls]
      | some hook => exact .done _
  | grace job epoch => rfl

def turned (w : World) (id : TaskId) (t : Task) : World :=
  finish (Hooked.turn (begin w id []) t).1 id (Hooked.turn (begin w id []) t).2

theorem happens_turned {w : World} {id : TaskId} {t : Task}
    (ready : w.executor.ready = [id]) (task : job? w id = some t) :
    Happens w [] (turned w id t) := by
  have hready : (HasExecutor.executor w).ready = [] ++ id :: [] := ready
  exact .turn hready task (behaves _ t)

def rung (w : World) (now : Nat) (id : TaskId) : World :=
  HasExecutor.update w fun x => { x with now, timers := [] }.wake id

theorem happens_rung {w : World} {now : Nat} {id : TaskId} (ready : w.executor.ready = [])
    (later : w.executor.now ≤ now) (timers : w.executor.timers = [⟨now, id⟩]) :
    Happens w [] (rung w now id) := by
  have hrung : rung w now id = HasExecutor.update w (·.moveClock now) :=
    congrArg (HasExecutor.withExecutor w)
      (Executor.moveClock_singleton timers (Nat.le_refl now)).symm
  rw [hrung]
  refine .clock ready later fun t ht => ?_
  have hmem : t ∈ w.executor.timers := ht
  rw [timers, List.mem_singleton] at hmem
  exact Nat.le_of_eq (by rw [hmem])

theorem fresh_plain (grace : Span) (refusals : List (Option ProducerError)) :
    Fresh { name := "plain", grace } (World.plain grace refusals) where
  state := rfl
  timer := ⟨rfl, rfl, rfl⟩
  numbered := ⟨nofun, nofun⟩
  jobs _ := rfl

/-! A consumer comes, the producer starts, the consumer leaves, and after the grace period the
producer stops. -/

namespace Visit

def job : Debouncer.Job := { number := 1, wait := .ofMs 500 }

def start : World := World.plain (.ofMs 500) []

def arrived : World := input start (.attach ())

def active : World := turned arrived 0 (.activation 0 none)

def left : World := input active (.release 1)

def asleep : World := turned left 1 (.grace job (some 1))

def late : World := rung asleep 500 1

def torn : World := turned late 1 (.grace { job with deadline := some 500 } (some 1))

def stopped : World := turned torn 2 (.teardown 0 none)

theorem run_left : Run start [.attach (), .release 1] left := by
  have hattach : Happens start [.attach ()] arrived := .conduct (.ask rfl rfl (.done _))
  have hstart : Happens arrived [] active := happens_turned rfl rfl
  have hrelease : Happens active [.release 1] left := .conduct (.ask rfl rfl (.done _))
  exact (((Run.done start).next hattach).next hstart).next hrelease

theorem run_stopped : Run start [.attach (), .release 1] stopped := by
  have hsleep : Happens left [] asleep := happens_turned rfl rfl
  have hring : Happens asleep [] late := happens_rung rfl (by decide) (by decide)
  have htear : Happens late [] torn := happens_turned (by decide) rfl
  have hstop : Happens torn [] stopped := happens_turned (by decide) rfl
  exact (((run_left.next hsleep).next hring).next htear).next hstop

end Visit

end Plain

end Lifecycle.Gate
