import Lifecycle.Proofs.Supervisor.Registry

/-!
# What a step leaves as it is

A step changes the stage of at most one task, the one that it is about.  A task that has started
does not go back, only a launch adds the task of a body, and a failure is told only to the launcher
of the body that has failed.
-/

namespace Lifecycle.Supervisor

def Input.task? : Input → Option Nat
  | .begin i | .finish i _ | .abort i | .panic i _ | .release i => some i
  | .launch _ | .cancel _ | .close => none

def Effect.isCalm : Effect → Bool
  | .start _ | .resolve _ _ => false
  | _ => true

namespace State

variable {s : State} {input : Input} {i : Nat}

def Started (s : State) (i : Nat) : Prop :=
  s.stageOf i = some .running ∨ s.stageOf i = some .ended

theorem lt_of_stageOf {stage : Stage} (h : s.stageOf i = some stage) : i < s.tasks.length := by
  obtain ⟨task, htask, -⟩ := Option.map_eq_some_iff.mp h
  exact (List.getElem?_eq_some_iff.mp htask).1

/-! ## States -/

theorem name_cancelTask (s : State) (i : Nat) : (s.cancelTask i).1.name = s.name := by
  unfold cancelTask
  split <;> rfl

theorem close_induct {P : State → List Effect → Prop} (start : P { s with closed := true } [])
    (next : ∀ t effects i, P t effects →
      P (t.cancelTask i).1 (effects ++ (t.cancelTask i).2)) : P s.close.1 s.close.2 :=
  List.foldlRecOn (motive := fun r : State × List Effect => P r.1 r.2) _ _ start
    fun r h i _ => next r.1 r.2 i h

theorem step_own (own : input.task? = some i) :
    (s.step input).1 = s ∨ input = .begin i ∧ (s.step input).1 = s.setStage i .running ∨
      (s.step input).1 = s.setStage i .orphaned ∨ (s.step input).1 = (s.endTask i).1 := by
  cases input with
  | launch | cancel | close => cases own
  | begin | finish | abort | panic | release =>
      cases own
      simp only [step, begin, finish, abort, panic, release]
      repeat' split
      all_goals first
        | exact .inl rfl
        | exact .inr (.inl ⟨trivial, rfl⟩)
        | exact .inr (.inr (.inl rfl))
        | exact .inr (.inr (.inr rfl))

theorem launch_eq (s : State) (key : Value) :
    (s.launch key).1 = s.extend key ∨ ∃ p, (s.launch key).1 = ((s.extend key).cancelTask p).1 := by
  unfold launch
  simp only
  split
  · exact .inl rfl
  · exact .inr ⟨_, rfl⟩

theorem cancel_eq (s : State) (key : Value) :
    (s.cancel key).1 = s ∨ ∃ i, (s.cancel key).1 = (s.cancelTask i).1 := by
  unfold cancel
  split
  · exact .inl rfl
  · exact .inr ⟨_, rfl⟩

theorem name_step (s : State) (input : Input) : (s.step input).1.name = s.name := by
  cases hown : input.task? with
  | some i =>
      rcases step_own (s := s) hown with heq | ⟨_, heq⟩ | heq | heq <;> rw [heq] <;> rfl
  | none =>
      cases input with
      | launch key =>
          rcases launch_eq s key with heq | ⟨p, heq⟩
          · exact (congrArg name heq).trans rfl
          · exact (congrArg name heq).trans (name_cancelTask _ p)
      | cancel key =>
          rcases cancel_eq s key with heq | ⟨p, heq⟩
          · exact congrArg name heq
          · exact (congrArg name heq).trans (name_cancelTask _ p)
      | close =>
          exact close_induct (P := fun t _ => t.name = s.name) rfl
            fun t _ i h => (name_cancelTask t i).trans h
      | begin | finish | abort | panic | release => cases hown

theorem stageOf_launch (s : State) (key : Value) (i : Nat) :
    (s.launch key).1.stageOf i = if i = s.tasks.length then some .waiting else s.stageOf i := by
  rw [← stageOf_extend]
  rcases launch_eq s key with heq | ⟨p, heq⟩
  · exact congrArg (stageOf · i) heq
  · exact (congrArg (stageOf · i) heq).trans ((cancelTask_alike _ p).stageOf i)

theorem stageOf_step (other : input.task? ≠ some i) (old : i < s.tasks.length) :
    (s.step input).1.stageOf i = s.stageOf i := by
  cases hown : input.task? with
  | some j =>
      rw [hown] at other
      have hne : j ≠ i := fun heq => other (congrArg some heq)
      rcases step_own (s := s) hown with heq | ⟨_, heq⟩ | heq | heq
      · rw [heq]
      · rw [heq, stageOf_setStage, if_neg hne]
      · rw [heq, stageOf_setStage, if_neg hne]
      · rw [heq, stageOf_endTask, if_neg hne]
  | none =>
      cases input with
      | launch key => exact (stageOf_launch s key i).trans (if_neg (Nat.ne_of_lt old))
      | cancel key =>
          rcases cancel_eq s key with heq | ⟨p, heq⟩
          · exact congrArg (stageOf · i) heq
          · exact (congrArg (stageOf · i) heq).trans ((cancelTask_alike _ p).stageOf i)
      | close =>
          exact close_induct (P := fun t _ => t.stageOf i = s.stageOf i) rfl
            fun t _ j h => ((cancelTask_alike t j).stageOf i).trans h
      | begin | finish | abort | panic | release => cases hown

theorem running_of_step (other : input ≠ .begin i)
    (running : (s.step input).1.stageOf i = some .running) : s.stageOf i = some .running := by
  by_cases hown : input.task? = some i
  · rcases step_own (s := s) hown with heq | ⟨hbegin, _⟩ | heq | heq
    · rwa [heq] at running
    · exact absurd hbegin other
    · rw [heq, stageOf_setStage, if_pos rfl] at running
      cases hstage : s.stageOf i <;> simp [hstage] at running
    · rw [heq, stageOf_endTask, if_pos rfl] at running
      cases hstage : s.stageOf i <;> simp [hstage] at running
  · by_cases hold : i < s.tasks.length
    · rwa [stageOf_step hown hold] at running
    · -- A task that is launched now waits, and no other input adds one.
      cases input with
      | launch key =>
          rw [show s.step (.launch key) = s.launch key from rfl, stageOf_launch] at running
          split at running
          · cases running
          · exact running
      | _ =>
          have hlength : i < (s.step _).1.taskKeys.length :=
            (lt_of_stageOf running).trans_eq (List.length_map _).symm
          rw [taskKeys_step] at hlength
          exact absurd (by simpa [Input.launched?, taskKeys] using hlength) hold

theorem stageOf_step_ended (ended : s.stageOf i = some .ended) (input : Input) :
    (s.step input).1.stageOf i = some .ended := by
  have hmove := step_move s input
  generalize (s.step input).2.filter Effect.isNews = news at hmove
  generalize (s.step input).1 = t at hmove ⊢
  cases hmove with
  | rest same => rw [same.stageOf, ended]
  | launch key same =>
      rw [same.stageOf, stageOf_extend, if_neg (Nat.ne_of_lt (lt_of_stageOf ended)), ended]
  | call j waiting free => exact stageOf_setStage_ended (by simp [waiting]) ended
  | orphan j waiting held => exact stageOf_setStage_ended (by simp [waiting]) ended
  | finish j r ready =>
      refine stageOf_setStage_ended ?_ ended
      rcases ready with ⟨waiting, _⟩ | running
      · simp [waiting]
      · simp [running]
  | release j orphaned free => exact stageOf_setStage_ended (by simp [orphaned]) ended

theorem Started.step (started : s.Started i) (input : Input) : (s.step input).1.Started i := by
  rcases started with running | ended
  · have hmove := step_move s input
    generalize (s.step input).2.filter Effect.isNews = news at hmove
    generalize (s.step input).1 = t at hmove ⊢
    cases hmove with
    | rest same => exact .inl ((same.stageOf i).trans running)
    | launch key same =>
        left
        rw [same.stageOf, stageOf_extend, if_neg (Nat.ne_of_lt (lt_of_stageOf running)), running]
    | call j waiting free | orphan j waiting held =>
        left
        rw [stageOf_setStage, if_neg, running]
        rintro rfl
        simp [running] at waiting
    | finish j r ready =>
        rw [Started, stageOf_endTask, running]
        split <;> simp
    | release j orphaned free =>
        rw [Started, stageOf_endTask, running]
        split <;> simp
  · exact .inr (stageOf_step_ended ended input)

theorem stageOf_begin (waiting : s.stageOf i = some .waiting) (free : s.awaits i = none) :
    (s.step (.begin i)).1.stageOf i = some (if s.isCancelled i then .ended else .running) := by
  obtain ⟨task, htask, hstage⟩ := Option.map_eq_some_iff.mp waiting
  have hcancelled : s.isCancelled i = task.cancelled := by rw [isCancelled, htask]
  rw [hcancelled, step, begin, htask]
  simp only [hstage, free, beq_self_eq_true, Option.isNone_none, Bool.and_self, if_true]
  cases task.cancelled with
  | true =>
      rw [if_pos rfl, if_pos rfl]
      exact (stageOf_endTask s i i).trans (by rw [if_pos rfl, waiting]; rfl)
  | false =>
      rw [if_neg Bool.false_ne_true, if_neg Bool.false_ne_true]
      exact (stageOf_setStage s i i .running).trans (by rw [if_pos rfl, waiting]; rfl)

theorem stageOf_finish (running : s.stageOf i = some .running) (r : Except TaskError Unit) :
    (s.step (.finish i r)).1.stageOf i = some .ended := by
  obtain ⟨task, htask, hstage⟩ := Option.map_eq_some_iff.mp running
  rw [step, finish, htask]
  simp [hstage, stageOf_endTask, running]

theorem stageOf_panic (running : s.stageOf i = some .running) (info : String) :
    (s.step (.panic i info)).1.stageOf i = some .ended := by
  obtain ⟨task, htask, hstage⟩ := Option.map_eq_some_iff.mp running
  rw [step, panic, htask]
  simp [hstage, stageOf_endTask, running]

theorem step_release_of_ne (other : s.stageOf i ≠ some .orphaned) :
    s.step (.release i) = (s, []) := by
  rw [step, release]
  cases htask : s.tasks[i]? with
  | none => rfl
  | some task =>
      have hstage : task.stage ≠ .orphaned := by
        rintro hstage
        exact other (by rw [stageOf, htask, Option.map_some, hstage])
      exact if_neg (by simp [hstage])

/-! ## Effects -/

theorem calm_cancelTask (s : State) (i : Nat) : ∀ e ∈ (s.cancelTask i).2, e.isCalm = true := by
  unfold cancelTask
  split <;> simp [Effect.isCalm]

theorem calm_close (s : State) : ∀ e ∈ s.close.2, e.isCalm = true :=
  close_induct (P := fun _ effects => ∀ e ∈ effects, e.isCalm = true) (by simp)
    fun t _ i h e he => (List.mem_append.mp he).elim (h e) (calm_cancelTask t i e)

theorem calm_cancel (s : State) (key : Value) : ∀ e ∈ (s.cancel key).2, e.isCalm = true := by
  unfold cancel
  split
  · simp
  · intro e he
    rcases List.mem_append.mp he with he | he
    · exact calm_cancelTask s _ e he
    · rw [List.mem_singleton.mp he]
      rfl

theorem launch_effects (s : State) (key : Value) :
    ∃ calm, (s.launch key).2 = calm ++ [.start s.tasks.length] ∧
      ∀ e ∈ calm, e.isCalm = true := by
  unfold launch
  simp only
  split
  · exact ⟨[_], rfl, by simp [Effect.isCalm]⟩
  · rename_i p _
    refine ⟨_, (List.append_assoc _ [_, _] [_]).symm, fun e he => ?_⟩
    rcases List.mem_append.mp he with he | he
    · exact calm_cancelTask _ p e he
    · simp only [List.mem_cons, List.not_mem_nil, or_false] at he
      rcases he with rfl | rfl <;> rfl

inductive Tells (i : Nat) : Input → Result → Prop
  | skipped : Tells i (.begin i) (.returned (.ok .skipped))
  | exited (r : Except TaskError Unit) (e : Exit) (called : e ≠ .skipped) :
      Tells i (.finish i r) (.returned (.ok e))
  | failed (e : TaskError) (failure : e.isCancellation = false) :
      Tells i (.finish i (.error e)) (.returned (.error e))
  | aborted : Tells i (.abort i) .aborted
  | panicked (info : String) : Tells i (.panic i info) (.panicked info)

/-- The input leads to the state `t`, where the task is over unless it was dropped. -/
def Learns (input : Input) (t : State) (i : Nat) (r : Result) : Prop :=
  Tells i input r ∧ (r ≠ .aborted → t.stageOf i = some .ended)

theorem Tells.own {r : Result} (h : Tells i input r) : input.task? = some i := by
  cases h <;> rfl

theorem tells_verdict (s : State) (i : Nat) (task : Task) (r : Except TaskError Unit) :
    Tells i (.finish i r) (.returned (s.verdict i task r).2) := by
  unfold verdict
  cases r with
  | ok u =>
      simp only
      split
      · exact .exited _ _ nofun
      · exact .exited _ _ nofun
  | error e =>
      simp only
      split
      · exact .exited _ _ nofun
      · rename_i hfailure
        exact .failed e (Bool.eq_false_iff.mpr hfailure)

def Tame (P : Nat → Result → Prop) (effects : List Effect) : Prop :=
  ∀ e ∈ effects, e.isCalm = true ∨ ∃ i r, e = .resolve i r ∧ P i r

variable {P : Nat → Result → Prop} {effects : List Effect}

theorem Tame.nil : Tame P [] := fun _ he => absurd he List.not_mem_nil

theorem Tame.of_calm (calm : ∀ e ∈ effects, e.isCalm = true) : Tame P effects :=
  fun e he => .inl (calm e he)

theorem Tame.resolve {r : Result} (calm : ∀ e ∈ effects, e.isCalm = true) (told : P i r) :
    Tame P (effects ++ [.resolve i r]) := by
  intro e he
  rcases List.mem_append.mp he with he | he
  · exact .inl (calm e he)
  · exact .inr ⟨i, r, List.mem_singleton.mp he, told⟩

theorem tame_step (old : input.launched? = none) :
    Tame (Learns input (s.step input).1) (s.step input).2 := by
  have hended {i : Nat} {task : Task} (htask : s.tasks[i]? = some task) :
      (s.endTask i).1.stageOf i = some .ended := by
    rw [stageOf_endTask, if_pos rfl, stageOf, htask]
    rfl
  cases input with
  | launch key => cases old
  | cancel key => exact .of_calm (calm_cancel s key)
  | close => exact .of_calm (calm_close s)
  | begin i =>
      simp only [step, begin]
      split
      · exact .nil
      · rename_i task htask
        repeat' split
        · exact .resolve (by simp [endTask, Effect.isCalm]) ⟨.skipped, fun _ => hended htask⟩
        · exact .of_calm (by simp [Effect.isCalm])
        · exact .nil
  | finish i r =>
      simp only [step, finish]
      split
      · exact .nil
      · rename_i task htask
        split
        · exact .resolve (by simp [endTask, Effect.isCalm])
            ⟨tells_verdict s i task r, fun _ => hended htask⟩
        · exact .nil
  | abort i =>
      simp only [step, abort]
      repeat' split
      · exact .nil
      · exact .resolve (by simp [endTask, Effect.isCalm]) ⟨.aborted, absurd rfl⟩
      · have hcalm : ∀ e ∈ [Effect.startRelease i], e.isCalm = true := by simp [Effect.isCalm]
        exact .resolve hcalm ⟨.aborted, absurd rfl⟩
      · exact .resolve (by simp [endTask, Effect.isCalm]) ⟨.aborted, absurd rfl⟩
      · exact .nil
      · exact .nil
  | panic i info =>
      simp only [step, panic]
      split
      · exact .nil
      · rename_i task htask
        split
        · exact .resolve (by simp [endTask, Effect.isCalm]) ⟨.panicked info, fun _ => hended htask⟩
        · exact .nil
  | release i =>
      simp only [step, release]
      repeat' split
      · exact .nil
      · exact .of_calm (by simp [endTask, Effect.isCalm])
      · exact .nil

end State

end Lifecycle.Supervisor
