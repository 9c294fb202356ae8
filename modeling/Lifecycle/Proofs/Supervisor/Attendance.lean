import Lifecycle.Proofs.Supervisor.Trace

/-!
# No task is left alone

Some task of the executor sees to it that a task of the supervisor ends: the one that is to call its
body, the one that runs it, or the one that releases its key.  Unless the body runs, it is in the
queue or waits for the predecessor, and the end of the predecessor wakes it.  So when no task is in
the queue, some body before an unfinished task, or its own, has not returned.
-/

namespace Lifecycle.Supervisor

namespace State

variable {s : State} {given : Input} {i p : Nat} {key : Value}

theorem previousOf_step (known : i < s.tasks.length) (given : Input) :
    (s.step given).1.previousOf i = s.previousOf i := by
  have hmove := step_move s given
  generalize (s.step given).2.filter Effect.isNews = news at hmove
  generalize (s.step given).1 = t at hmove ⊢
  cases hmove with
  | rest same => exact same.previousOf i
  | launch key same =>
      rw [same.previousOf, previousOf_extend, if_neg (Nat.ne_of_lt known)]
  | call | orphan => exact previousOf_setStage ..
  | finish | release => exact previousOf_endTask ..

theorem ended_of_step (live : s.stageOf i ≠ some .ended)
    (ended : (s.step given).1.stageOf i = some .ended) : .signal (.ended i) ∈ (s.step given).2 := by
  have hmove := step_move s given
  suffices h : Effect.signal (.ended i) ∈ (s.step given).2.filter Effect.isNews from
    (List.mem_filter.mp h).1
  generalize (s.step given).2.filter Effect.isNews = news at hmove ⊢
  generalize (s.step given).1 = t at hmove ended
  cases hmove with
  | rest same => exact absurd ((same.stageOf i).symm.trans ended) live
  | launch key same =>
      rw [same.stageOf, stageOf_extend] at ended
      split at ended
      · cases ended
      · exact absurd ended live
  | call j | orphan j =>
      rw [stageOf_setStage] at ended
      split at ended
      · cases hstage : s.stageOf i <;> simp [hstage] at ended
      · exact absurd ended live
  | finish j | release j =>
      rw [stageOf_endTask] at ended
      split at ended
      · rename_i hji
        rw [hji]
        exact List.mem_cons_self
      · exact absurd ended live

theorem awaits_eq_some_iff (s : State) (i p : Nat) :
    s.awaits i = some p ↔ s.previousOf i = some p ∧ s.stageOf p ≠ some .ended := by
  rw [awaits_eq, Option.filter_eq_some_iff, Bool.not_eq_true', isEnded_eq_false_iff]

theorem awaits_step (awaits : s.awaits i = some p) (given : Input) :
    (s.step given).1.awaits i = some p ∨ .signal (.ended p) ∈ (s.step given).2 := by
  obtain ⟨hprevious, hlive⟩ := (awaits_eq_some_iff s i p).mp awaits
  have hknown : i < s.tasks.length := by
    by_contra hlong
    rw [previousOf, List.getElem?_eq_none (Nat.le_of_not_lt hlong)] at hprevious
    cases hprevious
  by_cases hended : (s.step given).1.stageOf p = some .ended
  · exact .inr (ended_of_step hlive hended)
  · left
    exact (awaits_eq_some_iff _ i p).mpr ⟨(previousOf_step hknown given).trans hprevious, hended⟩

theorem previousOf_launch (s : State) (key : Value) (i : Nat) :
    (s.launch key).1.previousOf i =
      if i = s.tasks.length then s.owner? key else s.previousOf i := by
  rw [← previousOf_extend, launch_state]
  cases s.owner? key with
  | none => rfl
  | some p => exact (cancelTask_alike _ p).previousOf i

def Threaded (s : State) : Prop :=
  ∀ i p, s.previousOf i = some p → p < i ∧ s.keyOf p = s.keyOf i

theorem threaded_fresh (name : String) : Threaded { name } := fun _ _ => nofun

theorem Threaded.step (h : Threaded s) (chained : Chained s) (given : Input) :
    Threaded (s.step given).1 := by
  intro i p hprevious
  by_cases hknown : i < s.tasks.length
  · rw [previousOf_step hknown] at hprevious
    obtain ⟨hlt, hkey⟩ := h i p hprevious
    rw [keyOf_step_of_known hknown, keyOf_step_of_known (Nat.lt_trans hlt hknown)]
    exact ⟨hlt, hkey⟩
  · have hlt : i < (s.step given).1.tasks.length := by
      by_contra hlong
      rw [previousOf, List.getElem?_eq_none (Nat.le_of_not_lt hlong)] at hprevious
      cases hprevious
    obtain ⟨rfl, key, rfl⟩ := launched_of_step hknown hlt
    have howner : s.owner? key = some p := by
      rw [← hprevious, State.step, previousOf_launch, if_pos rfl]
    have hp := (chained.owner key p howner).1
    refine ⟨lt_of_keyOf hp, ?_⟩
    rw [keyOf_step_of_known (lt_of_keyOf hp), hp, keyOf_eq, taskKeys_step, tasks_length_eq]
    simp [Input.launched?]

theorem Threaded.run (h : Threaded s) (chained : Chained s) (inputs : List Input) :
    Threaded (s.run inputs).1 := by
  induction inputs generalizing s with
  | nil => exact h
  | cons given rest ih => exact ih (h.step chained given) (chained.step given)

theorem Threaded.first (h : Threaded s) (launched : s.keyOf i = some key)
    (live : s.stageOf i ≠ some .ended) :
    ∃ j ≤ i, s.keyOf j = some key ∧ s.stageOf j ≠ some .ended ∧ s.awaits j = none := by
  induction i using Nat.strongRecOn with
  | ind i ih =>
      cases hawaits : s.awaits i with
      | none => exact ⟨i, Nat.le_refl i, launched, live, hawaits⟩
      | some p =>
          obtain ⟨hprevious, hlive⟩ := (awaits_eq_some_iff s i p).mp hawaits
          obtain ⟨hlt, hkey⟩ := h i p hprevious
          obtain ⟨j, hle, hj⟩ := ih p hlt (hkey.trans launched) hlive
          exact ⟨j, Nat.le_trans hle (Nat.le_of_lt hlt), hj⟩

theorem stageOf_release (orphaned : s.stageOf i = some .orphaned) (free : s.awaits i = none) :
    (s.step (.release i)).1.stageOf i = some .ended := by
  obtain ⟨task, htask, hstage⟩ := Option.map_eq_some_iff.mp orphaned
  rw [step, release, htask]
  simp [hstage, free, stageOf_endTask, orphaned]

theorem stageOf_abort (live : s.stageOf i = some .waiting ∨ s.stageOf i = some .running) :
    (s.step (.abort i)).1.stageOf i = some .ended ∨
      (s.step (.abort i)).1.stageOf i = some .orphaned ∧
        .startRelease i ∈ (s.step (.abort i)).2 := by
  rcases live with waiting | running
  · obtain ⟨task, htask, hstage⟩ := Option.map_eq_some_iff.mp waiting
    simp only [step, abort, htask, hstage]
    split
    · exact .inl (stageOf_ended htask)
    · exact .inr ⟨stageOf_set htask .orphaned, List.mem_cons_self⟩
  · obtain ⟨task, htask, hstage⟩ := Option.map_eq_some_iff.mp running
    simp only [step, abort, htask, hstage]
    exact .inl (stageOf_ended htask)

theorem start_mem_launch (s : State) (key : Value) :
    .start s.tasks.length ∈ (s.launch key).2 := by
  rw [launch_tells]
  simp

end State

namespace Scenario

open HasExecutor

variable {turn : Option TaskId} {acting : Option Nat} {u v w : World}
  {x y z : Executor Signal Task} {id : TaskId} {i p : Nat} {t : Task} {stage : Stage}
  {given : Input} {effects more : List Effect} {rest : Rest Signal Task}

/-! ## What effects do to the executor -/

def Tells (effects : List Effect) (a : Signal) : Prop :=
  ∃ p, a = .task (.ended p) ∧ .signal (.ended p) ∈ effects

structure Delivers (turn : Option TaskId) (effects : List Effect) (x y : Executor Signal Task) :
    Prop extends Executor.Wakes turn (Tells effects) x y where
  started : ∀ i, .start i ∈ effects → ∃ id, turn ≠ some id ∧
    y.task? id = some (.program (.supervised i none)) ∧ id ∈ y.ready
  released : ∀ i, .startRelease i ∈ effects → ∃ id, turn ≠ some id ∧
    y.task? id = some (.program (.releaser i)) ∧ id ∈ y.ready

theorem Delivers.none (spares : Executor.Spares turn x y) : Delivers turn [] x y :=
  ⟨spares.wakes (by simp [Tells]), fun _ => nofun, fun _ => nofun⟩

theorem Delivers.trans (h₁ : Delivers turn effects x y) (h₂ : Delivers turn more y z) :
    Delivers turn (effects ++ more) x z where
  toWakes := h₁.toWakes.trans h₂.toWakes (by
    rintro _ ⟨p, rfl, told⟩
    exact (List.mem_append.mp told).imp (⟨p, rfl, ·⟩) (⟨p, rfl, ·⟩))
  started i told := by
    rcases List.mem_append.mp told with hfirst | hlater
    · obtain ⟨id, other, task, ready⟩ := h₁.started i hfirst
      have hspared := h₂.spared id (by rw [task]; rfl) other
      exact ⟨id, other, hspared.task.trans task, hspared.ready ready⟩
    · exact h₂.started i hlater
  released i told := by
    rcases List.mem_append.mp told with hfirst | hlater
    · obtain ⟨id, other, task, ready⟩ := h₁.released i hfirst
      have hspared := h₂.spared id (by rw [task]; rfl) other
      exact ⟨id, other, hspared.task.trans task, hspared.ready ready⟩
    · exact h₂.released i hlater

theorem spawn_next (ordered : x.Ordered turn) (t : Task) :
    ∃ id, turn ≠ some id ∧ (x.spawn t).task? id = some t ∧ id ∈ (x.spawn t).ready := by
  refine ⟨x.nextTask, ?_, Executor.task?_spawn ordered.toNumbered t, List.mem_append_right _ ?_⟩
  · rw [← ordered.turn]
    exact ordered.toNumbered.idle
  · exact List.mem_singleton_self _

theorem delivers_perform (ordered : w.executor.Ordered turn) (e : Effect) :
    Delivers turn [e] w.executor (Hosting.perform w e).executor := by
  cases e with
  | publish | resolve | callBody =>
      have hspares : Executor.Spares turn w.executor w.executor := .refl ordered
      exact ⟨hspares.wakes (by simp [Tells]), by simp, by simp⟩
  | signal s =>
      refine ⟨Executor.wakes_signal ordered ?_, by simp, by simp⟩
      rintro _ ⟨p, rfl, told⟩
      cases List.mem_singleton.mp told
      rfl
  | start i =>
      refine ⟨(Executor.spares_spawn ordered _).wakes (by simp [Tells]), fun j told => ?_, by simp⟩
      obtain rfl : j = i := by simpa using told
      exact spawn_next ordered _
  | startRelease i =>
      refine ⟨(Executor.spares_spawn ordered _).wakes (by simp [Tells]), by simp, fun j told => ?_⟩
      obtain rfl : j = i := by simpa using told
      exact spawn_next ordered _

theorem delivers_performAll (ordered : w.executor.Ordered turn) (effects : List Effect) :
    Delivers turn effects w.executor (effects.foldl Hosting.perform w).executor := by
  induction effects generalizing w with
  | nil => exact .none (.refl ordered)
  | cons e rest ih =>
      have hfirst := delivers_perform ordered e
      exact hfirst.trans (ih hfirst.ordered)

theorem delivers_input (ordered : w.executor.Ordered turn) (given : Input) :
    Delivers turn (w.supervisor.step given).2 w.executor (Hosting.input w given).executor :=
  delivers_performAll (w := { w with supervisor := (w.supervisor.step given).1 }) ordered _

/-! ## Who attends to a task -/

/-- Where in its program a task of the executor stands that attends to a task at the stage. -/
inductive Place (i : Nat) : Stage → Program Body → Prop
  | waiting : Place i .waiting (.supervised i none)
  | running (body : Body) : Place i .running (.supervised i (some body))
  | orphaned : Place i .orphaned (.releaser i)

def Awaited (w : World) (id : TaskId) (i : Nat) : Prop :=
  id ∈ w.executor.ready ∨
    ∃ p, w.supervisor.awaits i = some p ∧ (.task (.ended p), id) ∈ w.executor.waits

/-- A task of the executor, other than the one that has its turn, attends to the task. -/
inductive Attends (turn : Option TaskId) (w : World) (i : Nat) (stage : Stage) : Prop
  | gone (ended : stage = .ended)
  | tended {id : TaskId} {p : Program Body} (other : turn ≠ some id) (place : Place i stage p)
      (task : w.executor.task? id = some (.program p))
      (awaited : stage = .running ∨ Awaited w id i)

/-- All tasks are attended to, but for the one whose turn it may be.  Only tasks with a body are to
be dropped. -/
structure Attended (turn : Option TaskId) (acting : Option Nat) (w : World) : Prop where
  attended : ∀ i stage, w.supervisor.stageOf i = some stage → acting ≠ some i →
    Attends turn w i stage
  doomed : ∀ id ∈ w.executor.doomed,
    ∃ i b, w.executor.task? id = some (.program (.supervised i b))

theorem attended_fresh (s : Setup) : Attended none none s.world :=
  ⟨fun _ _ => nofun, fun _ => nofun⟩

theorem Attends.mono {turn' : Option TaskId} (h : Attends turn w i stage)
    (each : ∀ id p, turn ≠ some id → Place i stage p →
      w.executor.task? id = some (.program p) →
        turn' ≠ some id ∧ v.executor.task? id = some (.program p) ∧
          (Awaited w id i → Awaited v id i)) : Attends turn' v i stage := by
  cases h with
  | gone ended => exact .gone ended
  | tended other place task awaited =>
      obtain ⟨hother, htask, hawaited⟩ := each _ _ other place task
      exact .tended hother place htask (awaited.imp_right hawaited)

theorem Awaited.spared (h : Awaited w id i) (spared : Executor.Spared id w.executor v.executor)
    (supervisor : v.supervisor = w.supervisor) : Awaited v id i := by
  rcases h with ready | ⟨p, awaits, waits⟩
  · exact .inl (spared.ready ready)
  · exact (spared.waits _ waits).elim (fun h => .inr ⟨p, by rwa [supervisor], h⟩) .inl

theorem Attended.beside (h : Attended turn acting w) (beside : Beside turn w v) :
    Attended turn acting v where
  attended i stage hstage free := by
    rw [beside.supervisor] at hstage
    refine (h.attended i stage hstage free).mono fun id p other _ task => ?_
    have hspared := beside.executor.spared id (by rw [task]; rfl) other
    exact ⟨other, hspared.task.trans task, (·.spared hspared beside.supervisor)⟩
  doomed id doomed := by
    have hsame {t : Task} (task : w.executor.task? id = some t) : v.executor.task? id = some t :=
      (beside.executor.task id (by rw [task]; rfl)).trans task
    rcases beside.executor.doomed id doomed with hold | ⟨i, b, task⟩
    · obtain ⟨i, b, task⟩ := h.doomed id hold
      exact ⟨i, b, hsame task⟩
    · exact ⟨i, b, hsame task⟩

theorem Attended.congr (h : Attended turn acting w) (executor : v.executor = w.executor)
    (supervisor : v.supervisor = w.supervisor) : Attended turn acting v where
  attended i stage hstage free := by
    rw [supervisor] at hstage
    refine (h.attended i stage hstage free).mono fun id p other _ task => ⟨other, ?_, ?_⟩
    · rwa [executor]
    · rw [Awaited, Awaited, executor, supervisor]
      exact fun h => h
  doomed := by
    rw [executor]
    exact h.doomed

theorem Attended.input (h : Attended turn acting w) (ordered : w.executor.Listed turn)
    (given : Input) (own : ∀ i, given.task? = some i → acting = some i) :
    Attended turn acting (Hosting.input w given) := by
  have hdelivers := delivers_input ordered.toOrdered given
  constructor
  · intro i stage hstage free
    rw [supervisor_input] at hstage
    have hother : given.task? ≠ some i := fun heq => free (own i heq)
    by_cases hknown : i < w.supervisor.tasks.length
    · rw [State.stageOf_step hother hknown] at hstage
      refine (h.attended i stage hstage free).mono fun id p other _ task => ?_
      have hpresent : (w.executor.task? id).isSome = true := by rw [task]; rfl
      have hspared := hdelivers.spared id hpresent other
      refine ⟨other, hspared.task.trans task, ?_⟩
      rintro (ready | ⟨p, awaits, waits⟩)
      · exact .inl (hspared.ready ready)
      · rcases State.awaits_step awaits given with hawaits | hended
        · rw [← supervisor_input] at hawaits
          exact (hspared.waits _ waits).elim (fun h => .inr ⟨p, hawaits, h⟩) .inl
        · exact .inl (hdelivers.woken id _ hpresent other ⟨p, rfl, hended⟩ waits)
    · obtain ⟨rfl, key, rfl⟩ := State.launched_of_step hknown (State.lt_of_stageOf hstage)
      rw [State.step, State.stageOf_launch, if_pos rfl, Option.some.injEq] at hstage
      obtain ⟨id, other, task, ready⟩ :=
        hdelivers.started _ (State.start_mem_launch w.supervisor key)
      subst hstage
      exact .tended other .waiting task (.inr (.inl ready))
  · intro id doomed
    rw [hdelivers.doomed] at doomed
    obtain ⟨i, b, task⟩ := h.doomed id doomed
    exact ⟨i, b, (hdelivers.task id (by rw [task]; rfl)).trans task⟩

theorem Attended.acted (h : Attended turn acting w)
    (attends : ∀ i stage, acting = some i → w.supervisor.stageOf i = some stage →
      Attends turn w i stage) : Attended turn none w where
  attended i stage hstage _ := by
    by_cases hacting : acting = some i
    · exact attends i stage hacting hstage
    · exact h.attended i stage hstage hacting
  doomed := h.doomed

theorem Attended.gone (h : Attended turn (some i) w)
    (ended : w.supervisor.stageOf i = some .ended) : Attended turn none w := by
  refine h.acted ?_
  rintro _ stage ⟨⟩ hstage
  rw [ended, Option.some.injEq] at hstage
  exact .gone hstage.symm

theorem Leads.attended (leads : Leads turn w v) (h : Attended turn acting w) :
    Attended turn acting v := by
  induction leads with
  | start => exact h
  | beside _ beside ih => exact ih.beside beside
  | request leads free ih => exact ih.input leads.ordered _ (by rw [free]; exact fun _ => nofun)

theorem Leads.stageOf (leads : Leads turn w v) (known : w.supervisor.stageOf i = some stage) :
    v.supervisor.stageOf i = some stage := by
  induction leads with
  | start => exact known
  | beside _ beside ih => rwa [beside.supervisor]
  | request _ free ih =>
      rw [supervisor_input, State.stageOf_step (by rw [free]; nofun) (State.lt_of_stageOf ih), ih]

theorem Leads.task? (leads : Leads turn w v) (task : w.executor.task? id = some t) :
    v.executor.task? id = some t := by
  induction leads with
  | start => exact task
  | beside _ beside ih => exact (beside.executor.task id (by rw [ih]; rfl)).trans ih
  | request leads _ ih =>
      exact ((delivers_input leads.ordered.toOrdered _).task id (by rw [ih]; rfl)).trans ih

/-! ## Turns -/

theorem Attended.call (h : Attended none none w) (queued : id ∈ w.executor.ready)
    (ordered : w.executor.Listed none) (task : w.executor.task? id = some t)
    (attends : ∀ i stage p, t = .program p → Place i stage p →
      w.supervisor.stageOf i = some stage → acting = some i) :
    Attended (some id) acting (update w (·.call id)) := by
  have hkeeps := Executor.keeps_call ordered.turn (ordered.queued id queued)
  refine ⟨fun i stage hstage free => ?_, h.doomed⟩
  refine (h.attended i stage hstage nofun).mono fun k p _ place task' => ?_
  have hother : some id ≠ some k := by
    rintro ⟨⟩
    rw [task, Option.some.injEq] at task'
    exact free (attends i stage p task' place hstage)
  refine ⟨hother, task', ?_⟩
  rintro (ready | ⟨p, awaits, waits⟩)
  · exact .inl (hkeeps.ready k hother ready)
  · exact .inr ⟨p, awaits, waits⟩

theorem Attended.left (h : Attended (some id) acting w) (ordered : w.executor.Listed (some id))
    (attends : ∀ i stage, acting = some i → w.supervisor.stageOf i = some stage →
      Attends none (Hosted.leave w id rest) i stage)
    (stays : ∀ i b t, w.executor.task? id = some (.program (.supervised i b)) →
      rest.program? = some t → ∃ i b, t = .program (.supervised i b)) :
    Attended none none (Hosted.leave w id rest) := by
  have hkeeps := Executor.keeps_left ordered.turn rest
  have hsupervisor : (Hosted.leave w id rest).supervisor = w.supervisor := by rw [leave_eq]
  constructor
  · intro i stage hstage _
    rw [hsupervisor] at hstage
    by_cases hacting : acting = some i
    · exact attends i stage hacting hstage
    · refine (h.attended i stage hstage hacting).mono fun k p other _ task => ?_
      have hidle : w.executor.running ≠ some k := ordered.idle other
      have hspared := hkeeps.spared other (by rw [task]; rfl) hidle
      rw [← executor_leave] at hspared
      exact ⟨nofun, hspared.task.trans task, (·.spared hspared hsupervisor)⟩
  · intro k doomed
    rw [executor_leave] at doomed ⊢
    obtain ⟨i, b, task⟩ := h.doomed k (Executor.doomed_left _ _ _ _ doomed)
    by_cases hk : some id = some k
    · cases hk
      have hleft : (w.executor.left id rest).task? id = rest.program? :=
        Executor.task?_left (by rw [task]; rfl) rest
      cases hprogram : rest.program? with
      | none =>
          cases rest with
          | ended => simp [Executor.left, Executor.retire] at doomed
          | waiting | yielding => cases hprogram
      | some t =>
          obtain ⟨j, b', rfl⟩ := stays i b t task hprogram
          exact ⟨j, b', hleft.trans hprogram⟩
    · exact ⟨i, b, (hkeeps.task k hk).trans task⟩

theorem Attended.left_ended (h : Attended (some id) none w)
    (ordered : w.executor.Listed (some id)) : Attended none none (Hosted.leave w id .ended) :=
  h.left ordered (fun _ _ => nofun) fun _ _ _ _ => nofun

theorem Attended.left_input (h : Attended (some id) (some i) w)
    (ordered : w.executor.Listed (some id)) (given : Input) (own : given.task? = some i)
    (ended : (w.supervisor.step given).1.stageOf i = some .ended) :
    Attended none none (Hosted.leave (Hosting.input w given) id .ended) := by
  have hinput := h.input ordered given fun j hj => own.symm.trans hj
  rw [← supervisor_input] at ended
  exact (hinput.gone ended).left_ended (input_ordered ordered given)

theorem Attended.left_running {body : Body} (h : Attended (some id) (some i) w)
    (ordered : w.executor.Listed (some id)) (running : w.supervisor.stageOf i = some .running)
    (present : (w.executor.task? id).isSome = true)
    (program : rest.program? = some (.program (.supervised i (some body)))) :
    Attended none none (Hosted.leave w id rest) := by
  refine h.left ordered ?_ fun _ _ t _ heq => ⟨i, some body, ?_⟩
  · rintro _ stage ⟨⟩ hstage
    rw [running, Option.some.injEq] at hstage
    subst hstage
    refine .tended (Option.some_ne_none id).symm (.running body) ?_ (.inl rfl)
    rw [executor_leave]
    exact (Executor.task?_left present rest).trans program
  · rw [program, Option.some.injEq] at heq
    exact heq.symm

theorem Attended.left_waiting {p : Program Body} {j : Nat} (h : Attended (some id) acting w)
    (ordered : w.executor.Listed (some id)) (task : w.executor.task? id = some (.program p))
    (place : ∀ i stage, acting = some i → w.supervisor.stageOf i = some stage →
      Place i stage p ∧ w.supervisor.awaits i = some j) :
    Attended none none
      (Hosted.leave w id (.waiting (.program p) [.task (.ended j)] none)) := by
  refine h.left ordered (fun i stage hacting hstage => ?_) fun i b t task' heq => ⟨i, b, ?_⟩
  · obtain ⟨hplace, hawaits⟩ := place i stage hacting hstage
    refine .tended (Option.some_ne_none id).symm hplace ?_ (.inr (.inr ⟨j, ?_, ?_⟩))
    · rw [executor_leave]
      exact Executor.task?_left (by rw [task]; rfl) _
    · rwa [leave_eq]
    · rw [executor_leave]
      exact Executor.mem_waits_suspend List.mem_cons_self _ _
  · rw [task, Option.some.injEq] at task'
    rw [← task']
    exact (Option.some.inj heq).symm

theorem Runs.attended {r : World × Rest Signal Task} (runs : Runs (some id) w i r)
    (h : Attended (some id) (some i) w) (running : w.supervisor.stageOf i = some .running)
    (present : (w.executor.task? id).isSome = true) :
    Attended none none (Hosted.leave r.1 id r.2) := by
  obtain ⟨t, htask⟩ := Option.isSome_iff_exists.mp present
  cases runs with
  | pauses leads program =>
      refine (leads.attended h).left_running leads.ordered (leads.stageOf running) ?_ program
      rw [leads.task? htask]
      rfl
  | returns leads r =>
      exact (leads.attended h).left_input leads.ordered (.finish i r) rfl
        (State.stageOf_finish (leads.stageOf running) r)
  | panics leads info =>
      exact (leads.attended h).left_input leads.ordered (.panic i info) rfl
        (State.stageOf_panic (leads.stageOf running) info)

theorem Attended.left_begun {r : World × Rest Signal Task} (h : Attended (some id) (some i) w)
    (ordered : w.executor.Listed (some id)) (task : w.executor.task? id = some t)
    (begun : (w.supervisor.step (.begin i)).1.stageOf i = some .running)
    (runs : Runs (some id) (callBody (Hosting.input w (.begin i)) i).1 i r) :
    Attended none none (Hosted.leave r.1 id r.2) := by
  have hordered := input_ordered ordered (.begin i)
  have hinput := h.input ordered (.begin i) fun _ hj => hj
  have hdelivers := delivers_input ordered.toOrdered (.begin i)
  have htask := (hdelivers.task id (by rw [task]; rfl)).trans task
  obtain ⟨u, name, heq, hbeside⟩ := callBody_noted hordered i
  rw [heq] at runs
  refine runs.attended ((hinput.beside hbeside).congr rfl rfl) ?_ ?_
  · rw [← begun, ← supervisor_input]
    exact congrArg (·.stageOf i) hbeside.supervisor
  · change (u.executor.task? id).isSome = true
    rw [hbeside.executor.task id (by rw [htask]; rfl), htask]
    rfl

theorem Acts.attended {r : World × Rest Signal Task} (acts : Acts id w t r)
    (ordered : w.executor.Listed (some id)) (task : w.executor.task? id = some t)
    (serves : ∀ i b, t = .program (.supervised i b) → Serves w i b)
    (attended : ∀ acting, (∀ i stage p, t = .program p → Place i stage p →
      w.supervisor.stageOf i = some stage → acting = some i) → Attended (some id) acting w) :
    Attended none none (Hosted.leave r.1 id r.2) := by
  -- The task stands at its place of the program for one task of the supervisor only.
  have hsupervised {i : Nat} {b : Option Body} (heq : t = .program (.supervised i b)) :
      Attended (some id) (some i) w := by
    refine attended _ ?_
    rintro j stage p rfl place -
    cases heq
    cases place <;> rfl
  have hreleaser {i : Nat} (heq : t = .program (.releaser i)) : Attended (some id) (some i) w := by
    refine attended _ ?_
    rintro j stage p rfl place -
    cases heq
    cases place
    rfl
  have hidle {i : Nat} (heq : t = .program (.releaser i))
      (live : w.supervisor.stageOf i ≠ some .orphaned) : Attended (some id) none w := by
    refine attended _ ?_
    rintro j stage p rfl place hstage
    cases heq
    cases place
    exact absurd hstage live
  cases acts with
  | @waits p i j place awaits =>
      rcases place with rfl | rfl
      · refine (hsupervised rfl).left_waiting ordered task ?_
        rintro _ stage ⟨⟩ hstage
        rw [(serves i none rfl).stage] at hstage
        cases hstage
        exact ⟨.waiting, awaits⟩
      · by_cases horphaned : w.supervisor.stageOf i = some .orphaned
        · refine (hreleaser rfl).left_waiting ordered task ?_
          rintro _ stage ⟨⟩ hstage
          rw [horphaned] at hstage
          cases hstage
          exact ⟨.orphaned, awaits⟩
        · exact (hidle rfl horphaned).left_waiting ordered task fun _ _ => nofun
  | @skips i free cancelled =>
      refine (hsupervised rfl).left_input ordered (.begin i) rfl ?_
      rw [State.stageOf_begin (serves i none rfl).stage free, cancelled]
      rfl
  | @begins i r free spared runs =>
      have hrunning := State.stageOf_begin (serves i none rfl).stage free
      rw [spared, if_neg Bool.false_ne_true] at hrunning
      exact (hsupervised rfl).left_begun ordered task hrunning runs
  | @resumes i body r runs =>
      exact runs.attended (hsupervised rfl) (serves i _ rfl).stage (by rw [task]; rfl)
  | @releases i free =>
      by_cases horphaned : w.supervisor.stageOf i = some .orphaned
      · exact (hreleaser rfl).left_input ordered (.release i) rfl
          (State.stageOf_release horphaned free)
      · have hsame : Hosting.input w (.release i) = w := by
          rw [Hosting.input,
            show (Hosting.state w).step (.release i) = _ from State.step_release_of_ne horphaned]
          rfl
        rw [hsame]
        exact (hidle rfl horphaned).left_ended ordered
  | @stands t v rest bystander leads stays =>
      have hfree : Attended (some id) none w := by
        refine attended _ ?_
        rintro i stage p rfl place -
        cases place <;> cases bystander
      refine (leads.attended hfree).left leads.ordered (fun _ _ => nofun) fun i b t' task' _ => ?_
      rw [leads.task? task, Option.some.injEq] at task'
      subst task'
      cases bystander

theorem Episode.attended (episode : Episode w v) (h : Attended none none w) (sound : Sound w)
    (ordered : w.executor.Listed none) : Attended none none v := by
  cases episode with
  | between leads => exact leads.attended h
  | @turn id t r queued task spared acts =>
      refine acts.attended (ordered.call queued) task ?_ fun acting => h.call queued ordered task
      rintro i b rfl
      exact (sound.serves task).congr rfl rfl
  | @dropped id t queued task doomed =>
      obtain ⟨i, b, htask⟩ := h.doomed id doomed
      obtain rfl : t = .program (.supervised i b) := Option.some.inj (task.symm.trans htask)
      have hcalled : Attended (some id) (some i) (update w (·.call id)) := by
        refine h.call queued ordered task ?_
        rintro j stage p ⟨⟩ place -
        cases place <;> rfl
      have hordered : (update w (·.call id)).executor.Listed (some id) := ordered.call queued
      have hserves := sound.serves task
      have hinput := hcalled.input hordered (.abort i) (by rintro _ ⟨⟩; rfl)
      refine Attended.left_ended (hinput.acted ?_) (input_ordered hordered _)
      rintro _ stage ⟨⟩ hstage
      rw [supervisor_input] at hstage
      have hlive : w.supervisor.stageOf i = some .waiting ∨
          w.supervisor.stageOf i = some .running := by
        rw [hserves.stage]
        cases b <;> simp
      rcases State.stageOf_abort hlive with hended | ⟨horphaned, hrelease⟩
      · exact .gone (Option.some.inj (hstage.symm.trans hended))
      · obtain rfl : stage = .orphaned := Option.some.inj (hstage.symm.trans horphaned)
        obtain ⟨k, hother, htask, hready⟩ :=
          (delivers_input hordered.toOrdered (.abort i)).released i hrelease
        exact .tended hother .orphaned htask (.inr (.inl hready))

theorem attended_after (setup : Setup) {acts : List Act}
    (orderly : setup.world.orderly acts = true) :
    Attended none none (setup.world.after acts) :=
  after_keeps (fun _ _ sound ordered h episode => episode.attended h sound ordered)
    (fun _ _ h leads => leads.attended h) (sound_fresh setup) (listed_fresh setup) orderly
    (attended_fresh setup)

/-- While no task is in the queue, an unfinished task waits for a body that has not returned. -/
theorem Attended.held {key : Value} (h : Attended none none w) (threaded : w.supervisor.Threaded)
    (still : w.executor.ready = []) (launched : w.supervisor.keyOf i = some key)
    (live : w.supervisor.stageOf i ≠ some .ended) :
    ∃ j ≤ i, w.supervisor.keyOf j = some key ∧ w.supervisor.stageOf j = some .running := by
  obtain ⟨j, hle, hkey, hlive, hfree⟩ := threaded.first launched live
  have hknown := State.lt_of_keyOf hkey
  have hstage := State.stageOf_found (List.getElem?_eq_getElem hknown)
  refine ⟨j, hle, hkey, ?_⟩
  cases h.attended j _ hstage nofun with
  | gone ended => exact absurd (hstage.trans (congrArg some ended)) hlive
  | tended _ _ _ awaited =>
      rcases awaited with running | ready | ⟨p, awaits, _⟩
      · rw [hstage, running]
      · rw [still] at ready
        cases ready
      · rw [hfree] at awaits
        cases awaits

end Scenario

end Lifecycle.Supervisor
