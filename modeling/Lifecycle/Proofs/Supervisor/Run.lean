import Lifecycle.Supervisor.Step

/-!
# Runs of a supervisor

A run takes inputs in any order: launches, requests to cancel, the turns of the tasks, the ways in
which bodies end, and dropped tasks.  `Move` lists what one input can do to the owners and to the
places of the tasks in their chains; `step_move` says that every step is one of these moves.
-/

namespace Lifecycle.Supervisor

def Effect.isNews : Effect → Bool
  | .callBody _ | .resolve _ _ | .signal (.ended _) => true
  | _ => false

namespace State

def run (s : State) : List Input → State × List Effect
  | [] => (s, [])
  | input :: rest =>
      let (next, first) := s.step input
      let (last, later) := next.run rest
      (last, first ++ later)

theorem run_cons (s : State) (input : Input) (rest : List Input) :
    s.run (input :: rest) =
      (((s.step input).1.run rest).1,
        (s.step input).2 ++ ((s.step input).1.run rest).2) := rfl

/-! ## What is read of a task -/

def keyOf (s : State) (i : Nat) : Option Value := s.tasks[i]?.map Task.key

def stageOf (s : State) (i : Nat) : Option Stage := s.tasks[i]?.map Task.stage

def previousOf (s : State) (i : Nat) : Option Nat := s.tasks[i]?.bind Task.previous

theorem isEnded_iff (s : State) (i : Nat) : s.isEnded i = true ↔ s.stageOf i = some .ended := by
  unfold isEnded stageOf
  cases s.tasks[i]? <;> simp

theorem awaits_eq (s : State) (i : Nat) :
    s.awaits i = (s.previousOf i).filter fun p => !s.isEnded p := by
  unfold awaits previousOf
  cases s.tasks[i]? <;> rfl

theorem awaits_eq_none_iff (s : State) (i : Nat) :
    s.awaits i = none ↔ ∀ p, s.previousOf i = some p → s.stageOf p = some .ended := by
  rw [awaits_eq]
  cases s.previousOf i with
  | none => simp
  | some p => simp [← isEnded_iff]

/-- Two states that differ in which tasks are cancelled, at most. -/
structure Alike (s t : State) : Prop where
  owners : t.owners = s.owners
  keyOf : ∀ i, t.keyOf i = s.keyOf i
  stageOf : ∀ i, t.stageOf i = s.stageOf i
  previousOf : ∀ i, t.previousOf i = s.previousOf i

theorem Alike.refl (s : State) : Alike s s := ⟨rfl, fun _ => rfl, fun _ => rfl, fun _ => rfl⟩

theorem Alike.trans {s t u : State} (h₁ : Alike s t) (h₂ : Alike t u) : Alike s u where
  owners := h₂.owners.trans h₁.owners
  keyOf i := (h₂.keyOf i).trans (h₁.keyOf i)
  stageOf i := (h₂.stageOf i).trans (h₁.stageOf i)
  previousOf i := (h₂.previousOf i).trans (h₁.previousOf i)

theorem modifyTask_alike (s : State) (i : Nat) (f : Task → Task)
    (hkey : ∀ t, (f t).key = t.key) (hstage : ∀ t, (f t).stage = t.stage)
    (hprevious : ∀ t, (f t).previous = t.previous) : Alike s (s.modifyTask i f) := by
  refine ⟨rfl, fun j => ?_, fun j => ?_, fun j => ?_⟩
  all_goals
    simp only [keyOf, stageOf, previousOf, modifyTask, List.getElem?_modify]
    cases s.tasks[j]? with
    | none => rfl
    | some t => by_cases h : i = j <;> simp [h, hkey, hstage, hprevious]

theorem cancelTask_alike (s : State) (i : Nat) : Alike s (s.cancelTask i).1 := by
  unfold cancelTask
  split
  · exact .refl s
  · exact modifyTask_alike s i _ (fun _ => rfl) (fun _ => rfl) (fun _ => rfl)

theorem cancelTask_news (s : State) (i : Nat) :
    (s.cancelTask i).2.filter Effect.isNews = [] := by
  unfold cancelTask
  split <;> rfl

/-! ## The places of the tasks after each kind of move -/

def setStage (s : State) (i : Nat) (stage : Stage) : State :=
  s.modifyTask i fun t => { t with stage }

@[simp] theorem owners_setStage (s : State) (i : Nat) (stage : Stage) :
    (s.setStage i stage).owners = s.owners := rfl

@[simp] theorem keyOf_setStage (s : State) (i j : Nat) (stage : Stage) :
    (s.setStage i stage).keyOf j = s.keyOf j := by
  simp only [keyOf, setStage, modifyTask, List.getElem?_modify]
  cases s.tasks[j]? with
  | none => rfl
  | some t => by_cases h : i = j <;> simp [h]

@[simp] theorem previousOf_setStage (s : State) (i j : Nat) (stage : Stage) :
    (s.setStage i stage).previousOf j = s.previousOf j := by
  simp only [previousOf, setStage, modifyTask, List.getElem?_modify]
  cases s.tasks[j]? with
  | none => rfl
  | some t => by_cases h : i = j <;> simp [h]

theorem stageOf_setStage (s : State) (i j : Nat) (stage : Stage) :
    (s.setStage i stage).stageOf j =
      if i = j then (s.stageOf j).map fun _ => stage else s.stageOf j := by
  simp only [stageOf, setStage, modifyTask, List.getElem?_modify]
  cases s.tasks[j]? with
  | none => simp
  | some t => by_cases h : i = j <;> simp [h]

@[simp] theorem keyOf_endTask (s : State) (i j : Nat) : (s.endTask i).1.keyOf j = s.keyOf j :=
  keyOf_setStage s i j .ended

@[simp] theorem previousOf_endTask (s : State) (i j : Nat) :
    (s.endTask i).1.previousOf j = s.previousOf j :=
  previousOf_setStage s i j .ended

theorem stageOf_endTask (s : State) (i j : Nat) :
    (s.endTask i).1.stageOf j =
      if i = j then (s.stageOf j).map fun _ => .ended else s.stageOf j :=
  stageOf_setStage s i j .ended

def extend (s : State) (key : Value) : State :=
  let task : Task := { key, previous := s.owner? key, cancelled := s.closed }
  { s with tasks := s.tasks ++ [task] }.setOwner key s.tasks.length

theorem tasks_extend (s : State) (key : Value) (i : Nat) :
    (s.extend key).tasks[i]? =
      if i = s.tasks.length then
        some ({ key, previous := s.owner? key, cancelled := s.closed } : Task)
      else s.tasks[i]? := by
  simp only [extend, setOwner, List.getElem?_append]
  by_cases hi : i = s.tasks.length
  · simp [hi]
  · rw [if_neg hi]
    split
    · rfl
    · rw [List.getElem?_eq_none (by simp; omega), List.getElem?_eq_none (by omega)]

theorem keyOf_extend (s : State) (key : Value) (i : Nat) :
    (s.extend key).keyOf i = if i = s.tasks.length then some key else s.keyOf i := by
  unfold keyOf
  rw [tasks_extend]
  split <;> rfl

theorem stageOf_extend (s : State) (key : Value) (i : Nat) :
    (s.extend key).stageOf i = if i = s.tasks.length then some .waiting else s.stageOf i := by
  unfold stageOf
  rw [tasks_extend]
  split <;> rfl

theorem previousOf_extend (s : State) (key : Value) (i : Nat) :
    (s.extend key).previousOf i =
      if i = s.tasks.length then s.owner? key else s.previousOf i := by
  unfold previousOf
  rw [tasks_extend]
  split <;> rfl

theorem owners_extend (s : State) (key : Value) :
    (s.extend key).owners =
      s.owners.filter (fun o => o.1 ≠ key) ++ [(key, s.tasks.length)] := rfl

/-! ## The moves -/

/-- What one input can do to owners and chains, with the news that it makes. -/
inductive Move (s : State) : State → List Effect → Prop
  | rest {t : State} (same : Alike s t) : Move s t []
  | launch (key : Value) {t : State} (same : Alike (s.extend key) t) : Move s t []
  | call (i : Nat) (waiting : s.stageOf i = some .waiting) (free : s.awaits i = none) :
      Move s (s.setStage i .running) [.callBody i]
  | orphan (i : Nat) (waiting : s.stageOf i = some .waiting) (held : s.awaits i ≠ none) :
      Move s (s.setStage i .orphaned) [.resolve i .aborted]
  | finish (i : Nat) (r : Result)
      (ready : s.stageOf i = some .waiting ∧ s.awaits i = none ∨ s.stageOf i = some .running) :
      Move s (s.endTask i).1 [.signal (.ended i), .resolve i r]
  | release (i : Nat) (orphaned : s.stageOf i = some .orphaned) (free : s.awaits i = none) :
      Move s (s.endTask i).1 [.signal (.ended i)]

theorem launch_move (s : State) (key : Value) :
    Move s (s.launch key).1 ((s.launch key).2.filter Effect.isNews) := by
  have hlaunch : s.launch key = (s.owner? key).elim
      (s.extend key, [.publish (s.event .taskLaunched key s.tasks.length), .start s.tasks.length])
      fun p => (((s.extend key).cancelTask p).1, ((s.extend key).cancelTask p).2 ++
        [.publish ((s.extend key).event .taskCancelRequested key p),
          .publish (s.event .taskLaunched key s.tasks.length), .start s.tasks.length]) := by
    unfold launch extend
    cases s.owner? key <;> rfl
  rw [hlaunch]
  cases s.owner? key with
  | none => exact .launch key (.refl _)
  | some p =>
      simp only [Option.elim_some, List.filter_append, cancelTask_news]
      exact .launch key (cancelTask_alike _ p)

theorem cancel_move (s : State) (key : Value) :
    Move s (s.cancel key).1 ((s.cancel key).2.filter Effect.isNews) := by
  unfold cancel
  split
  · exact .rest (.refl s)
  · simp only [List.filter_append, cancelTask_news]
    exact .rest (cancelTask_alike s _)

theorem cancelTasks_quiet (s : State) (tasks : List Nat) (t : State) (effects : List Effect)
    (same : Alike s t) (quiet : effects.filter Effect.isNews = []) :
    let (last, all) := tasks.foldl
      (fun (s, effects) i =>
        let (s, more) := s.cancelTask i
        (s, effects ++ more))
      (t, effects)
    Alike s last ∧ all.filter Effect.isNews = [] := by
  induction tasks generalizing t effects with
  | nil => exact ⟨same, quiet⟩
  | cons i rest ih =>
      have hmore : (effects ++ (t.cancelTask i).2).filter Effect.isNews = [] := by
        rw [List.filter_append, quiet, cancelTask_news]
        rfl
      exact ih (t.cancelTask i).1 _ (same.trans (cancelTask_alike t i)) hmore

theorem close_move (s : State) : Move s s.close.1 (s.close.2.filter Effect.isNews) := by
  have h := cancelTasks_quiet s (List.range s.tasks.length).reverse { s with closed := true } []
    ⟨rfl, fun _ => rfl, fun _ => rfl, fun _ => rfl⟩ rfl
  unfold close
  rw [h.2]
  exact .rest h.1

theorem begin_move (s : State) (i : Nat) :
    Move s (s.begin i).1 ((s.begin i).2.filter Effect.isNews) := by
  unfold begin
  cases htask : s.tasks[i]? with
  | none => exact .rest (.refl s)
  | some task =>
      by_cases hready : (task.stage == .waiting && (s.awaits i).isNone) = true
      · have hready' : task.stage = .waiting ∧ s.awaits i = none := by simpa using hready
        have hstage : s.stageOf i = some .waiting := by simp [stageOf, htask, hready'.1]
        simp only [hready, if_true]
        cases task.cancelled with
        | true => exact .finish i _ (.inl ⟨hstage, hready'.2⟩)
        | false => exact .call i hstage hready'.2
      · simp only [hready]
        exact .rest (.refl s)

theorem finish_move (s : State) (i : Nat) (r : Except TaskError Unit) :
    Move s (s.finish i r).1 ((s.finish i r).2.filter Effect.isNews) := by
  unfold finish
  cases htask : s.tasks[i]? with
  | none => exact .rest (.refl s)
  | some task =>
      by_cases hrunning : (task.stage == .running) = true
      · have hstage : s.stageOf i = some .running := by
          simpa [stageOf, htask] using hrunning
        simp only [hrunning, if_true]
        exact .finish i _ (.inr hstage)
      · simp only [hrunning]
        exact .rest (.refl s)

theorem panic_move (s : State) (i : Nat) (info : String) :
    Move s (s.panic i info).1 ((s.panic i info).2.filter Effect.isNews) := by
  unfold panic
  cases htask : s.tasks[i]? with
  | none => exact .rest (.refl s)
  | some task =>
      by_cases hrunning : (task.stage == .running) = true
      · have hstage : s.stageOf i = some .running := by
          simpa [stageOf, htask] using hrunning
        simp only [hrunning, if_true]
        exact .finish i _ (.inr hstage)
      · simp only [hrunning]
        exact .rest (.refl s)

theorem abort_move (s : State) (i : Nat) :
    Move s (s.abort i).1 ((s.abort i).2.filter Effect.isNews) := by
  unfold abort
  cases htask : s.tasks[i]? with
  | none => exact .rest (.refl s)
  | some task =>
      have hstage : s.stageOf i = some task.stage := by simp [stageOf, htask]
      cases hcase : task.stage with
      | waiting =>
          rw [hcase] at hstage
          simp only [hcase]
          by_cases hfree : s.awaits i = none
          · simp only [hfree, Option.isNone_none, if_true]
            exact .finish i _ (.inl ⟨hstage, hfree⟩)
          · simp only [Option.isNone_iff_eq_none, hfree, if_false]
            exact .orphan i hstage hfree
      | running =>
          rw [hcase] at hstage
          simp only [hcase]
          exact .finish i _ (.inr hstage)
      | orphaned | ended =>
          simp only [hcase]
          exact .rest (.refl s)

theorem release_move (s : State) (i : Nat) :
    Move s (s.release i).1 ((s.release i).2.filter Effect.isNews) := by
  unfold release
  cases htask : s.tasks[i]? with
  | none => exact .rest (.refl s)
  | some task =>
      by_cases hready : (task.stage == .orphaned && (s.awaits i).isNone) = true
      · have hready' : task.stage = .orphaned ∧ s.awaits i = none := by simpa using hready
        simp only [hready, if_true]
        exact .release i (by simp [stageOf, htask, hready'.1]) hready'.2
      · simp only [hready]
        exact .rest (.refl s)

theorem step_move (s : State) (input : Input) :
    Move s (s.step input).1 ((s.step input).2.filter Effect.isNews) := by
  cases input with
  | launch key => exact launch_move s key
  | cancel key => exact cancel_move s key
  | close => exact close_move s
  | begin i => exact begin_move s i
  | finish i r => exact finish_move s i r
  | abort i => exact abort_move s i
  | panic i info => exact panic_move s i info
  | release i => exact release_move s i

end State

end Lifecycle.Supervisor
