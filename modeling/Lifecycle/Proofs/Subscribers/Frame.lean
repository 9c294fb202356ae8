import Lifecycle.Proofs.Executor.Turns
import Lifecycle.Subscribers.Hosting

/-!
# Worlds that host a subscriber set lawfully

What else goes on in a world does not touch the set and its tasks: no task of the set is removed,
moved or held up, and nobody but those who shut the set down waits for a task of the set to end.
-/

namespace Lifecycle.Subscribers

/-- A world that keeps executor, set and bus apart. -/
class LawfulHosting (W : Type) {σ τ η : outParam Type} [Hosting W σ τ η] : Prop where
  executor_withExecutor : ∀ (w : W) x, HasExecutor.executor (HasExecutor.withExecutor w x) = x
  state_withExecutor : ∀ (w : W) x, Hosting.state (HasExecutor.withExecutor w x) = Hosting.state w
  executor_withState : ∀ (w : W) s,
    HasExecutor.executor (Hosting.withState w s) = HasExecutor.executor w
  state_withState : ∀ (w : W) s, Hosting.state (Hosting.withState w s) = s
  executor_withBus : ∀ (w : W) b,
    HasExecutor.executor (Hosting.withBus w b) = HasExecutor.executor w
  state_withBus : ∀ (w : W) b, Hosting.state (Hosting.withBus w b) = Hosting.state w
  toSignal_injective : ∀ a b, Hosting.toSignal W a = Hosting.toSignal W b → a = b
  toTask_injective : ∀ p q, Hosting.toTask W p = Hosting.toTask W q → p = q

def Signal.isOver : Signal → Bool
  | listenerOver | workerOver _ => true
  | published | stop | queue _ => false

namespace Hosting

open HasExecutor

variable {W σ τ η : Type} [Hosting W σ τ η] {u v w : W} {id : TaskId} {p q : Program η}

def Job (w : W) (id : TaskId) (p : Program η) : Prop :=
  (executor w).task? id = some (Hosting.toTask W p)

def Awaits (w : W) (id : TaskId) (s : Signal) : Prop :=
  (Hosting.toSignal W s, id) ∈ (executor w).waits

theorem Job.present (job : Job w id p) : ((executor w).task? id).isSome = true := by
  rw [show (executor w).task? id = _ from job]
  rfl

theorem Job.unique [LawfulHosting W] (hp : Job w id p) (hq : Job w id q) : p = q :=
  LawfulHosting.toTask_injective p q (Option.some.inj (hp.symm.trans hq))

/-- The tasks of the set go on where they are, except that they may be woken. -/
structure Beside (w v : W) : Prop where
  numbered : (executor w).Numbered → (executor v).Numbered
  nextTask : (executor w).nextTask ≤ (executor v).nextTask
  job : ∀ id p, Job v id p ↔ Job w id p
  running : ∀ id p, Job w id p → ((executor v).running = some id ↔ (executor w).running = some id)
  ready : ∀ id p, Job w id p → id ∈ (executor w).ready → id ∈ (executor v).ready
  awaits : ∀ id p s, Job w id p → (executor w).running ≠ some id → Awaits w id s →
    Awaits v id s ∨ id ∈ (executor v).ready
  lasting : ∀ id s, s.isOver = true → Awaits v id s → Awaits w id s

namespace Beside

theorem of_eq (same : executor v = executor w) : Beside w v where
  numbered h := by rwa [same]
  nextTask := Nat.le_of_eq (by rw [same])
  job id p := by rw [Job, Job, same]
  running id p _ := by rw [same]
  ready id p _ h := by rwa [same]
  awaits id p s _ _ h := by
    rw [Awaits, same]
    exact .inl h
  lasting id s _ h := by
    rw [Awaits, same] at h
    exact h

theorem refl (w : W) : Beside w w := .of_eq rfl

theorem trans (h₁ : Beside w v) (h₂ : Beside v u) : Beside w u where
  numbered h := h₂.numbered (h₁.numbered h)
  nextTask := Nat.le_trans h₁.nextTask h₂.nextTask
  job id p := (h₂.job id p).trans (h₁.job id p)
  running id p job := (h₂.running id p ((h₁.job id p).mpr job)).trans (h₁.running id p job)
  ready id p job h := h₂.ready id p ((h₁.job id p).mpr job) (h₁.ready id p job h)
  awaits id p s job idle h := by
    have hjob := (h₁.job id p).mpr job
    rcases h₁.awaits id p s job idle h with hkept | hready
    · exact h₂.awaits id p s hjob (mt (h₁.running id p job).mp idle) hkept
    · exact .inr (h₂.ready id p hjob hready)
  lasting id s isOver h := h₁.lasting id s isOver (h₂.lasting id s isOver h)

theorem of_keeps (skip : Option TaskId) (h : (executor w).Keeps skip (executor v))
    (other : ∀ id p, skip = some id → ¬Job w id p ∧ ¬Job v id p)
    (nextTask : (executor w).nextTask ≤ (executor v).nextTask)
    (lasting : ∀ id s, s.isOver = true → Awaits v id s → Awaits w id s) : Beside w v where
  numbered := h.numbered
  nextTask := nextTask
  job id p := by
    by_cases hid : skip = some id
    · exact iff_of_false (other id p hid).2 (other id p hid).1
    · rw [Job, Job, h.task id hid]
  running id p job := h.running id (fun hid => (other id p hid).1 job) job.present
  ready id p job := h.ready id fun hid => (other id p hid).1 job
  awaits id p s job := h.waits id _ (fun hid => (other id p hid).1 job) job.present
  lasting := lasting

end Beside

structure Spared (id : TaskId) (w v : W) : Prop where
  job : ∀ p, Job v id p ↔ Job w id p
  ready : ∀ p, Job w id p → id ∈ (executor w).ready → id ∈ (executor v).ready
  awaits : ∀ p s, Job w id p → Awaits w id s → Awaits v id s ∨ id ∈ (executor v).ready

theorem Beside.spared (h : Beside w v) (idle : ∀ p, Job w id p → (executor w).running ≠ some id) :
    Spared id w v :=
  ⟨h.job id, h.ready id, fun p s job => h.awaits id p s job (idle p job)⟩

theorem Spared.of_keeps {skip : Option TaskId} (h : (executor w).Keeps skip (executor v))
    (other : skip ≠ some id) (idle : ∀ p, Job w id p → (executor w).running ≠ some id) :
    Spared id w v where
  job p := by rw [Job, Job, h.task id other]
  ready p _ := h.ready id other
  awaits p s job := h.waits id _ other job.present (idle p job)

structure Frame (w v : W) : Prop extends Beside w v where
  state : Hosting.state v = Hosting.state w

theorem Frame.of_eq (executor : HasExecutor.executor v = HasExecutor.executor w)
    (state : Hosting.state v = Hosting.state w) : Frame w v :=
  ⟨.of_eq executor, state⟩

theorem Frame.trans (h₁ : Frame w v) (h₂ : Frame v u) : Frame w u :=
  ⟨h₁.toBeside.trans h₂.toBeside, h₂.state.trans h₁.state⟩

/-! ## What effects tell -/

structure Tells (effects : List Effect) (w v : W) : Prop extends Beside w v where
  woken : ∀ id p s, Job w id p → (executor w).running ≠ some id → .signal s ∈ effects →
    Awaits w id s → id ∈ (executor v).ready
  silent : ∀ id s, s.isOver = true → .signal s ∈ effects → ¬Awaits v id s

theorem Beside.tells {effects : List Effect} (h : Beside w v)
    (none : ∀ s, .signal s ∉ effects) : Tells effects w v :=
  ⟨h, fun _ _ s _ _ told => absurd told (none s), fun _ s _ told => absurd told (none s)⟩

theorem Tells.trans {effects more : List Effect} (h₁ : Tells effects w v)
    (h₂ : Tells more v u) : Tells (effects ++ more) w u where
  toBeside := h₁.toBeside.trans h₂.toBeside
  woken id p s job idle told h := by
    have hjob := (h₁.job id p).mpr job
    rcases List.mem_append.mp told with hfirst | hlater
    · exact h₂.ready id p hjob (h₁.woken id p s job idle hfirst h)
    · rcases h₁.awaits id p s job idle h with hkept | hready
      · exact h₂.woken id p s hjob (mt (h₁.running id p job).mp idle) hlater hkept
      · exact h₂.ready id p hjob hready
  silent id s isOver told h := by
    rcases List.mem_append.mp told with hfirst | hlater
    · exact h₁.silent id s isOver hfirst (h₂.lasting id s isOver h)
    · exact h₂.silent id s isOver hlater h

section Lawful

variable [LawfulHosting W]

@[simp] theorem executor_update (w : W) (f : Executor σ τ → Executor σ τ) :
    executor (update w f) = f (executor w) :=
  LawfulHosting.executor_withExecutor w _

@[simp] theorem state_update (w : W) (f : Executor σ τ → Executor σ τ) :
    state (update w f) = state w :=
  LawfulHosting.state_withExecutor w _

theorem now_update (w : W) (f : Executor σ τ → Executor σ τ) :
    now (update w f) = (f (executor w)).now :=
  congrArg Executor.now (executor_update w f)

theorem frame_spawn (numbered : (executor w).Numbered) {program : τ}
    (other : ∀ p, program ≠ Hosting.toTask W p) : Frame w (spawn w program) := by
  have hold {id : TaskId} {p : Program η} (job : Job w id p) : id ≠ (executor w).nextTask :=
    Nat.ne_of_lt (numbered.tasks id job.present)
  have hexecutor : executor (spawn w program) = (executor w).spawn program := executor_update w _
  refine ⟨⟨fun h => ?_, ?_, fun id p => ⟨fun job => ?_, fun job => ?_⟩, fun id p _ => ?_,
    fun id p _ ready => ?_, fun id p s _ _ h => ?_, fun id s _ h => ?_⟩, state_update w _⟩
  · rw [hexecutor]
    exact Executor.numbered_spawn h program
  · rw [hexecutor]
    exact Nat.le_succ _
  · rw [Job, hexecutor] at job
    rcases Executor.task?_of_spawn numbered job with ⟨_, hnew⟩ | hold
    · exact absurd hnew.symm (other p)
    · exact hold
  · rw [Job, hexecutor, Executor.task?_spawn_ne program (hold job)]
    exact job
  · rw [hexecutor]
    rfl
  · rw [hexecutor]
    exact List.mem_append_left _ ready
  · rw [Awaits, hexecutor]
    exact .inl h
  · rw [Awaits, hexecutor] at h
    exact h

theorem frame_moveClock (w : W) (target : Nat) : Frame w (update w (·.moveClock target)) := by
  obtain ⟨more, hmore⟩ := (executor w).moveClock_eq target
  have hexecutor := executor_update w (·.moveClock target)
  rw [hmore] at hexecutor
  refine ⟨⟨fun h => ?_, ?_, fun id p => ?_, fun id p _ => ?_, fun id p _ ready => ?_,
    fun id p s _ _ awaits => ?_, fun id s _ awaits => ?_⟩, state_update w _⟩
  · rw [hexecutor]
    exact ⟨h.tasks, h.running⟩
  · exact Nat.le_of_eq (by rw [hexecutor])
  · rw [Job, hexecutor]
    exact Iff.rfl
  · rw [hexecutor]
  · rw [hexecutor]
    exact List.mem_append_left _ ready
  · rw [Awaits, hexecutor]
    exact .inl awaits
  · rw [Awaits, hexecutor] at awaits
    exact awaits

theorem frame_call (rests : (executor w).running = none)
    (present : ((executor w).task? id).isSome = true) (apart : ∀ p, ¬Job w id p) :
    Frame w (update w (·.call id)) := by
  have hexecutor := executor_update w (·.call id)
  refine ⟨.of_keeps (some id) ?_ ?_ ?_ ?_, state_update w _⟩
  · rw [hexecutor]
    exact Executor.keeps_call rests present
  · rintro other p ⟨⟩
    rw [Job, Job, hexecutor]
    exact ⟨apart p, apart p⟩
  · rw [hexecutor]
    exact Nat.le_refl _
  · intro other s _ awaits
    rwa [Awaits, hexecutor] at awaits

theorem frame_retire (turn : (executor w).running = some id) (apart : ∀ p, ¬Job w id p) :
    Frame w (update w (·.retire id)) := by
  have hexecutor := executor_update w (·.retire id)
  refine ⟨.of_keeps (some id) ?_ ?_ ?_ ?_, state_update w _⟩
  · rw [hexecutor]
    exact Executor.keeps_retire turn
  · rintro other p ⟨⟩
    rw [Job, Job, hexecutor, Executor.task?_retire]
    exact ⟨apart p, (by simp)⟩
  · rw [hexecutor]
    exact Nat.le_refl _
  · intro other s _ awaits
    rw [Awaits, hexecutor] at awaits
    exact (List.mem_filter.mp awaits).1

variable [DecidableEq σ]

theorem awaits_signal {a : σ} {s : Signal} (h : Awaits (signal w a) id s) :
    Awaits w id s ∧ Hosting.toSignal W s ≠ a := by
  obtain ⟨more, hmore⟩ := (executor w).signal_eq a
  rw [Awaits, signal, executor_update, hmore, List.mem_filter] at h
  exact ⟨h.1, by simpa using h.2⟩

theorem beside_signal (w : W) (a : σ) : Beside w (signal w a) := by
  obtain ⟨more, hmore⟩ := (executor w).signal_eq a
  refine .of_keeps none ?_ nofun ?_ fun id s _ h => (awaits_signal h).1
  · rw [signal, executor_update]
    exact (executor w).keeps_signal a
  · exact Nat.le_of_eq (by rw [signal, executor_update, hmore])

theorem frame_signal (w : W) (a : σ) : Frame w (signal w a) :=
  ⟨beside_signal w a, state_update w _⟩

theorem frame_signalAll (w : W) (given : List σ) :
    ∃ u : W, Frame w u ∧ now u = now w ∧
      executor u = given.foldl Executor.signal (executor w) := by
  induction given generalizing w with
  | nil => exact ⟨w, .of_eq rfl rfl, rfl, rfl⟩
  | cons s rest ih =>
      obtain ⟨u, hframe, hnow, hu⟩ := ih (signal w s)
      have hexecutor : executor (signal w s) = (executor w).signal s := executor_update w _
      refine ⟨u, (frame_signal w s).trans hframe, hnow.trans ?_, ?_⟩
      · rw [now, hexecutor, ((executor w).keeps_signal s).now, now]
      · rw [hu, hexecutor, List.foldl_cons]

theorem frame_publish (w : W) (e : Event) : Frame w (publish w e) :=
  have hbus : Frame w (withBus w ((bus w).publish e)) :=
    .of_eq (LawfulHosting.executor_withBus w _) (LawfulHosting.state_withBus w _)
  hbus.trans (frame_signal _ _)

theorem tells_signal (w : W) (s : Signal) :
    Tells [.signal s] w (signal w (Hosting.toSignal W s)) := by
  refine ⟨beside_signal w _, fun id p s' job idle told h => ?_, fun id s' _ told h => ?_⟩
  · cases List.mem_singleton.mp told
    rw [signal, executor_update]
    exact Executor.mem_ready_signal job.present idle h
  · cases List.mem_singleton.mp told
    exact (awaits_signal h).2 rfl

theorem tells_perform (w : W) {e : Effect} (no_task : e ≠ .startListener) :
    Tells [e] w (perform w e) := by
  cases e with
  | publish e => exact (frame_publish w e).toBeside.tells (by simp)
  | signal s => exact tells_signal w s
  | startListener => exact absurd rfl no_task
  | handle => exact (Beside.refl w).tells (by simp)

theorem state_perform (w : W) (e : Effect) : state (perform w e) = state w := by
  cases e with
  | publish e => exact (frame_publish w e).state
  | signal s => exact (frame_signal w _).state
  | startListener => exact state_update w (·.spawn _)
  | handle => rfl

theorem state_input (w : W) (given : Input) :
    state (input w given) = ((state w).step given).1 := by
  have hsame (effects : List Effect) (w : W) : state (effects.foldl perform w) = state w := by
    induction effects generalizing w with
    | nil => rfl
    | cons e rest ih => exact (ih (perform w e)).trans (state_perform w e)
  exact (hsame _ _).trans (LawfulHosting.state_withState w _)

theorem running_input (w : W) (given : Input) :
    (executor (input w given)).running = (executor w).running := by
  have hsignal (w : W) (a : σ) : (executor (signal w a)).running = (executor w).running := by
    obtain ⟨more, hmore⟩ := (executor w).signal_eq a
    rw [signal, executor_update, hmore]
  have hsame (effects : List Effect) (w : W) :
      (executor (effects.foldl perform w)).running = (executor w).running := by
    induction effects generalizing w with
    | nil => rfl
    | cons e rest ih =>
        refine (ih (perform w e)).trans ?_
        cases e with
        | publish e =>
            exact (hsignal _ _).trans
              (congrArg Executor.running (LawfulHosting.executor_withBus w _))
        | signal s => exact hsignal w _
        | startListener =>
            have hspawn : executor (perform w .startListener) =
                (executor w).spawn (Hosting.toTask W .listener) := executor_update w (·.spawn _)
            rw [hspawn]
            rfl
        | handle => rfl
  exact (hsame _ _).trans (congrArg Executor.running (LawfulHosting.executor_withState w _))

theorem tells_performAll (effects : List Effect) (w : W) (no_task : .startListener ∉ effects) :
    Tells effects w (effects.foldl perform w) := by
  induction effects generalizing w with
  | nil => exact (Beside.refl w).tells (by simp)
  | cons e rest ih =>
      have hfirst := tells_perform w (e := e) fun heq => no_task (heq ▸ List.mem_cons_self)
      exact hfirst.trans (ih (perform w e) fun mem => no_task (List.mem_cons_of_mem e mem))

theorem tells_input (w : W) (given : Input)
    (no_task : .startListener ∉ ((state w).step given).2) :
    Tells ((state w).step given).2 w (input w given) := by
  have hbeside : Beside w (withState w ((state w).step given).1) :=
    .of_eq (LawfulHosting.executor_withState w _)
  have hfirst : Tells [] w (withState w ((state w).step given).1) := hbeside.tells (by simp)
  exact hfirst.trans (tells_performAll _ _ no_task)

end Lawful

end Hosting

end Lifecycle.Subscribers
