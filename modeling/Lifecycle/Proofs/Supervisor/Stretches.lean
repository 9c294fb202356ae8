import Lifecycle.Proofs.Supervisor.Attendance

/-!
# Stretches of a run

What happens within a turn, or between turns, comes down to inputs of the supervisor and to calm
moves of the executor beside them.  No task of the executor changes by it but the one whose turn it
is, and a task that is gone does not come back: the numbers of new tasks are new.
-/

namespace Lifecycle.Supervisor.Scenario

open HasExecutor

variable {turn : Option TaskId} {u v w : World} {x y z : Executor Signal Task} {id : TaskId}
  {i : Nat} {t : Task} {given : Input} {new more : Task → Prop} {acts : List Act}

/-! ## New tasks -/

/-- Tasks but `skip` stay as they are, and those that are added, under new numbers, are `new`. -/
structure Adds (skip : Option TaskId) (new : Task → Prop) (x y : Executor Signal Task) : Prop where
  task : ∀ id, skip ≠ some id → (x.task? id).isSome = true → y.task? id = x.task? id
  nextTask : x.nextTask ≤ y.nextTask
  fresh : ∀ id t, skip ≠ some id → y.task? id = some t →
    (x.task? id).isSome = true ∨ x.nextTask ≤ id ∧ new t

namespace Adds

variable {skip : Option TaskId}

theorem same (task : ∀ id, skip ≠ some id → y.task? id = x.task? id)
    (nextTask : y.nextTask = x.nextTask) : Adds skip new x y :=
  ⟨fun id other _ => task id other, Nat.le_of_eq nextTask.symm,
    fun id _ other found => .inl (by rw [← task id other, found]; rfl)⟩

theorem refl (x : Executor Signal Task) : Adds skip new x x := same (fun _ _ => rfl) rfl

theorem mono (h : Adds none new x y) (each : ∀ t, new t → more t) : Adds skip more x y :=
  ⟨fun id _ => h.task id nofun, h.nextTask,
    fun id t _ found => (h.fresh id t nofun found).imp_right (And.imp_right (each t))⟩

theorem trans (h₁ : Adds skip new x y) (h₂ : Adds skip new y z) : Adds skip new x z where
  task id other present := by
    have hfirst := h₁.task id other present
    rw [← hfirst] at present ⊢
    exact h₂.task id other present
  nextTask := Nat.le_trans h₁.nextTask h₂.nextTask
  fresh id t other task := by
    rcases h₂.fresh id t other task with hold | ⟨hlater, hnew⟩
    · exact h₁.fresh id t other ((h₂.task id other hold).symm.trans task)
    · exact .inr ⟨Nat.le_trans h₁.nextTask hlater, hnew⟩

theorem spawn (numbered : x.Numbered) (hnew : new t) : Adds skip new x (x.spawn t) where
  task id _ present := Executor.task?_spawn_ne t (Nat.ne_of_lt (numbered.tasks id present))
  nextTask := Nat.le_succ _
  fresh id t' _ task := by
    by_cases hid : id = x.nextTask
    · rw [hid, Executor.task?_spawn numbered] at task
      cases task
      exact .inr ⟨Nat.le_of_eq hid.symm, hnew⟩
    · rw [Executor.task?_spawn_ne t hid] at task
      exact .inl (by rw [task]; rfl)

theorem signal (x : Executor Signal Task) (s : Signal) : Adds skip new x (x.signal s) := by
  obtain ⟨woken, hwoken⟩ := x.signal_eq s
  rw [hwoken]
  exact same (fun _ _ => rfl) rfl

theorem left (holds : x.running = some id) (rest : Rest Signal Task) :
    Adds (some id) new x (x.left id rest) :=
  same (Executor.keeps_left holds rest).task (x.nextTask_left id rest)

theorem task_eq (h : Adds skip new x y) (other : skip ≠ some id) (task : x.task? id = some t) :
    y.task? id = some t :=
  (h.task id other (by rw [task]; rfl)).trans task

theorem gone (h : Adds skip new x y) (other : skip ≠ some id) (old : id < x.nextTask)
    (gone : x.task? id = none) : y.task? id = none := by
  cases htask : y.task? id with
  | none => rfl
  | some t =>
      rcases h.fresh id t other htask with hpresent | ⟨hlater, _⟩
      · rw [gone] at hpresent
        cases hpresent
      · exact absurd old (Nat.not_lt_of_le hlater)

end Adds

def Task.IsNew (t : Task) : Prop := t.isBystander = true → t.isNewcomer = true

theorem Calm.adds (h : Calm turn x y) : Adds none (·.isNewcomer = true) x y :=
  ⟨fun id _ => h.task id, h.nextTask, fun id t _ task =>
    (h.fresh id t task).imp_right fun enters => ⟨enters.later, enters.newcomer⟩⟩

theorem adds_performAll (numbered : w.executor.Ordered turn) (effects : List Effect) :
    Adds none (·.isBystander = false) w.executor (effects.foldl Hosting.perform w).executor := by
  induction effects generalizing w with
  | nil => exact .refl _
  | cons e rest ih =>
      refine Adds.trans ?_ (ih (delivers_perform numbered e).ordered)
      cases e with
      | publish | resolve | callBody => exact .refl _
      | signal s => exact .signal _ _
      | start i | startRelease i => exact .spawn numbered.toNumbered rfl

theorem adds_input (ordered : w.executor.Ordered turn) (given : Input) :
    Adds none (·.isBystander = false) w.executor (Hosting.input w given).executor :=
  adds_performAll (w := { w with supervisor := (w.supervisor.step given).1 }) ordered _

/-! ## Stretches -/

/-- The supervisor is given inputs, with other things beside that leave it alone. -/
inductive Stretch (turn : Option TaskId) (w : World) : World → Prop
  | start (ordered : w.executor.Listed turn) : Stretch turn w w
  | calm {u v : World} (stretch : Stretch turn w u) (calm : Calm turn u.executor v.executor)
      (supervisor : v.supervisor = u.supervisor) : Stretch turn w v
  | input {u : World} (stretch : Stretch turn w u) (given : Input) :
      Stretch turn w (Hosting.input u given)

namespace Stretch

theorem ordered (stretch : Stretch turn w v) : v.executor.Listed turn := by
  induction stretch with
  | start ordered => exact ordered
  | calm _ calm _ _ => exact calm.ordered
  | input _ given ih => exact input_ordered ih given

theorem trans (h₁ : Stretch turn w v) (h₂ : Stretch turn v u) : Stretch turn w u := by
  induction h₂ with
  | start => exact h₁
  | calm _ calm supervisor ih => exact ih.calm calm supervisor
  | input _ given ih => exact ih.input given

theorem adds (stretch : Stretch turn w v) :
    Adds none Task.IsNew w.executor v.executor := by
  induction stretch with
  | start => exact .refl _
  | calm _ calm _ ih => exact ih.trans (calm.adds.mono fun _ newcomer _ => newcomer)
  | input stretch given ih =>
      refine ih.trans ((adds_input stretch.ordered.toOrdered given).mono fun t hactive hidle => ?_)
      rw [hactive] at hidle
      cases hidle

theorem isEnded (stretch : Stretch turn w v) (ended : w.supervisor.isEnded i = true) :
    v.supervisor.isEnded i = true := by
  induction stretch with
  | start => exact ended
  | calm _ _ supervisor ih => rwa [supervisor]
  | input _ given ih =>
      rw [supervisor_input, State.isEnded_iff]
      exact State.stageOf_step_ended ((State.isEnded_iff _ i).mp ih) given

end Stretch

theorem Leads.stretch (leads : Leads turn w v) : Stretch turn w v := by
  induction leads with
  | start ordered => exact .start ordered
  | beside _ beside ih => exact ih.calm beside.executor beside.supervisor
  | request _ _ ih => exact ih.input _

theorem Runs.stretch {r : World × Rest Signal Task} (runs : Runs turn w i r) :
    Stretch turn w r.1 := by
  cases runs with
  | pauses leads => exact leads.stretch
  | returns leads | panics leads =>
      dsimp only
      exact leads.stretch.input _

theorem Acts.stretch {r : World × Rest Signal Task} (acts : Acts id w t r)
    (ordered : w.executor.Listed (some id)) : Stretch (some id) w r.1 := by
  have hstart : Stretch (some id) w w := .start ordered
  cases acts with
  | waits => exact hstart
  | skips | releases =>
      dsimp only
      exact hstart.input _
  | @begins i r free spared runs =>
      obtain ⟨u, name, heq, hbeside⟩ := callBody_noted (input_ordered ordered (.begin i)) i
      rw [heq] at runs
      have hcalled := (hstart.input (.begin i)).calm (v := u.note name .start) hbeside.executor
        hbeside.supervisor
      exact hcalled.trans runs.stretch
  | resumes runs => exact runs.stretch
  | stands _ leads => exact leads.stretch

theorem Stretch.discard (ordered : w.executor.Listed turn) (id : TaskId) (t : Task) :
    Stretch turn w (Hosted.discard w id t) := by
  rcases discard_cases w id t with ⟨i, b, _, heq⟩ | ⟨_, heq⟩
  · rw [heq]
    exact (Stretch.start ordered).input _
  · rw [heq]
    exact .start ordered

theorem listed_leave (ordered : w.executor.Listed (some id)) (rest : Rest Signal Task) :
    (Hosted.leave w id rest).executor.Listed none := by
  rw [executor_leave]
  exact ordered.left rest

theorem Stretch.tidy (ordered : w.executor.Listed none) : Stretch none w w.tidy :=
  (Leads.tidy (.start ordered)).stretch

theorem task?_tidied (ordered : w.executor.Listed (some id)) {rest : Rest Signal Task}
    (task : (Hosted.leave w id rest).tidy.executor.task? id = some t) :
    rest.program? = some t ∨ t.IsNew := by
  have hadds := (Stretch.tidy (listed_leave ordered rest)).adds
  rcases hadds.fresh id t nofun task with present | ⟨_, hnew⟩
  · have hsame := (hadds.task id nofun present).symm.trans task
    rw [executor_leave] at hsame
    exact .inl (Executor.program?_of_left hsame)
  · exact .inr hnew

theorem program?_of_gone (ordered : w.executor.Listed (some id))
    (present : (w.executor.task? id).isSome = true) {rest : Rest Signal Task}
    (gone : (Hosted.leave w id rest).tidy.executor.task? id = none) : rest.program? = none := by
  cases hprogram : rest.program? with
  | none => rfl
  | some t =>
      have hleft : (Hosted.leave w id rest).executor.task? id = some t := by
        rw [executor_leave, Executor.task?_left present, hprogram]
      have hadds := (Stretch.tidy (listed_leave ordered rest)).adds
      cases gone.symm.trans (hadds.task_eq nofun hleft)

/-! ## Acts -/

theorem tidy_alike (w : World) : State.Alike w.supervisor w.tidy.supervisor := by
  have hclosed : State.Alike w.supervisor w.closeSupervisor.supervisor := by
    unfold World.closeSupervisor
    split
    · exact .refl _
    · rw [supervisor_input]
      refine State.close_induct (P := fun t _ => State.Alike w.supervisor t)
        ⟨rfl, fun _ => rfl, fun _ => rfl, fun _ => rfl⟩ fun t _ i h => ?_
      exact h.trans (State.cancelTask_alike t i)
  refine List.foldlRecOn (motive := fun v : World => State.Alike w.supervisor v.supervisor)
    _ _ hclosed fun v h c _ => ?_
  split <;> exact h

def Act.turn? : Act → Option TaskId
  | .turn id => some id
  | .step _ | .clock _ => none

/-- What an act comes to: something beside all turns, or the turn of one task. -/
inductive Does (w : World) : Act → World → Prop
  | aside {a : Act} {v : World} (other : a.turn? = none) (stretch : Stretch none w v) : Does w a v
  | turned {id : TaskId} {t : Task} {r : World × Rest Signal Task} (queued : id ∈ w.executor.ready)
      (task : w.executor.task? id = some t) (acts : Acts id (update w (·.call id)) t r)
      (taken : r = Hosted.turn (update w (·.call id)) id t) :
      Does w (.turn id) (Hosted.leave r.1 id r.2).tidy
  | dropped {id : TaskId} {i : Nat} {b : Option Body} (queued : id ∈ w.executor.ready)
      (task : w.executor.task? id = some (.program (.supervised i b))) :
      Does w (.turn id) (Hosted.leave
        (Hosted.discard (update w (·.call id)) id (.program (.supervised i b))) id .ended).tidy

namespace Does

variable {a : Act}

theorem adds (does : Does w a v) (ordered : w.executor.Listed none) :
    Adds a.turn? Task.IsNew w.executor v.executor := by
  have hturn {id : TaskId} {u : World} (queued : id ∈ w.executor.ready) (rest : Rest Signal Task)
      (stretch : Stretch (some id) (update w (·.call id)) u) :
      Adds (some id) Task.IsNew w.executor (Hosted.leave u id rest).tidy.executor := by
    have hcalled : Adds (some id) Task.IsNew w.executor (w.executor.call id) :=
      .same (fun _ _ => rfl) rfl
    have hleft : Adds (some id) Task.IsNew u.executor (Hosted.leave u id rest).executor := by
      rw [executor_leave]
      exact .left stretch.ordered.turn rest
    have htidied := (Stretch.tidy (listed_leave stretch.ordered rest)).adds
    exact ((hcalled.trans (stretch.adds.mono fun _ h => h)).trans hleft).trans
      (htidied.mono fun _ h => h)
  cases does with
  | aside other stretch =>
      rw [other]
      exact stretch.adds
  | turned queued task acts => exact hturn queued _ (acts.stretch (ordered.call queued))
  | dropped queued task => exact hturn queued _ (.discard (ordered.call queued) _ _)

theorem isEnded (does : Does w a v) (ordered : w.executor.Listed none)
    (ended : w.supervisor.isEnded i = true) : v.supervisor.isEnded i = true := by
  have hturn {id : TaskId} {u : World} (rest : Rest Signal Task)
      (stretch : Stretch (some id) (update w (·.call id)) u) :
      (Hosted.leave u id rest).tidy.supervisor.isEnded i = true := by
    have hended : u.supervisor.isEnded i = true := stretch.isEnded ended
    rw [State.isEnded_iff] at hended ⊢
    rw [(tidy_alike _).stageOf, leave_eq]
    exact hended
  cases does with
  | aside _ stretch => exact stretch.isEnded ended
  | turned queued _ acts => exact hturn _ (acts.stretch (ordered.call queued))
  | dropped queued _ => exact hturn _ (.discard (ordered.call queued) _ _)

end Does

structure Settled (w : World) : Prop where
  sound : Sound w
  ordered : w.executor.Listed none
  attended : Attended none none w

theorem settled_fresh (setup : Setup) : Settled setup.world :=
  ⟨sound_fresh setup, listed_fresh setup, attended_fresh setup⟩

theorem Settled.perform (h : Settled w) {a : Act} (admitted : w.admits a = true) :
    Settled (w.perform a) := by
  obtain ⟨u, hepisode, hleads⟩ := perform_episode h.ordered admitted
  exact ⟨h.sound.perform admitted, hleads.ordered,
    hleads.attended (hepisode.attended h.attended h.sound h.ordered)⟩

theorem Settled.after (h : Settled w) (orderly : w.orderly acts = true) :
    Settled (w.after acts) := by
  induction acts generalizing w with
  | nil => exact h
  | cons a rest ih =>
      rw [World.orderly_cons] at orderly
      exact ih (h.perform orderly.1) orderly.2

theorem Settled.does (h : Settled w) {a : Act} (admitted : w.admits a = true) :
    Does w a (w.perform a) := by
  have hstart : Leads none w w := .start h.ordered
  cases a with
  | step s => exact .aside rfl (hstart.take admitted).tidy.stretch
  | clock target =>
      refine .aside rfl ?_
      exact (Stretch.start h.ordered).calm (.moveClock h.ordered target) rfl
  | turn id =>
      have hqueued : id ∈ w.executor.ready := List.contains_iff_mem.mp admitted
      obtain ⟨t, htask⟩ := Option.isSome_iff_exists.mp (h.ordered.queued id hqueued)
      by_cases hdoomed : id ∈ w.executor.doomed
      · obtain ⟨i, b, hbody⟩ := h.attended.doomed id hdoomed
        obtain rfl := Option.some.inj (htask.symm.trans hbody)
        rw [World.perform, Hosted.runTurn_of_doomed hqueued htask hdoomed]
        exact .dropped hqueued htask
      · rw [World.perform, Hosted.runTurn_of_task hqueued htask hdoomed]
        exact .turned hqueued htask (acts_turn (h.ordered.call hqueued) t) rfl

theorem Settled.after_keeps {P : World → Prop} (h : Settled w)
    (keeps : ∀ u a v, Settled u → P u → Does u a v → P v) (orderly : w.orderly acts = true)
    (start : P w) : P (w.after acts) := by
  induction acts generalizing w with
  | nil => exact start
  | cons a rest ih =>
      rw [World.orderly_cons] at orderly
      exact ih (h.perform orderly.1) orderly.2 (keeps w a _ h start (h.does orderly.1))

end Lifecycle.Supervisor.Scenario
