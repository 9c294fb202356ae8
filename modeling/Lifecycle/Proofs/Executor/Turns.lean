import Lifecycle.Executor.Foreground
import Lifecycle.Proofs.Hosting.Tasks

/-!
# The turn of any task in the queue

What is shown of a world should not hang on the order of the queue.  A task that is hastened has the
next turn; the turn spares every task that waits or is in the queue.
-/

namespace Lifecycle

def Rest.program? {σ τ : Type} : Rest σ τ → Option τ
  | ended => none
  | waiting program _ _ | yielding program => some program

namespace Executor

variable {σ τ : Type} {x y z : Executor σ τ} {id other : TaskId}

def call (x : Executor σ τ) (id : TaskId) : Executor σ τ :=
  { x with ready := x.ready.filter (· ≠ id), running := some id }

theorem next?_hasten (queued : id ∈ x.ready) : (x.hasten id).next? = some (id, x.call id) := by
  rw [hasten, if_pos (List.contains_iff_mem.mpr queued), next?, call]

theorem keeps_call (idle : x.running = none) (present : (x.task? id).isSome = true) :
    Keeps (some id) x (x.call id) where
  now := rfl
  numbered h := by
    refine ⟨h.tasks, fun other running => ?_⟩
    cases running
    exact h.tasks id present
  task _ _ := rfl
  running other ne _ := by
    rw [idle]
    exact ⟨fun running => absurd running ne, nofun⟩
  ready other ne ready := by
    refine List.mem_filter.mpr ⟨ready, ?_⟩
    have hother : other ≠ id := fun heq => ne (by rw [heq])
    simpa using hother
  waits _ _ _ _ _ := .inl
  timers _ _ _ armed := armed

theorem requeue_eq (program : τ) :
    ∃ more, x.requeue id program =
      { (x.place id program).forget id with ready := x.ready ++ more } :=
  wake_eq _ _

theorem keeps_requeue (holds : x.running = some id) (program : τ) :
    Keeps (some id) x (x.requeue id program) := by
  obtain ⟨more, hmore⟩ := requeue_eq (x := x) program
  have hne {other : TaskId} (ne : some id ≠ some other) : other ≠ id := fun heq => ne (by rw [heq])
  rw [hmore]
  constructor
  · rfl
  · exact fun h => ⟨fun other present => h.tasks other (task?_isSome_place present), nofun⟩
  · exact fun other ne => task?_place_ne program (hne ne)
  · intro other ne _
    rw [holds]
    exact ⟨nofun, fun heq => absurd heq ne⟩
  · exact fun other _ ready => List.mem_append_left _ ready
  · exact fun other a ne _ _ waits => .inl (List.mem_filter.mpr ⟨waits, by simpa using hne ne⟩)
  · exact fun other deadline ne armed => List.mem_filter.mpr ⟨armed, by simpa using hne ne⟩

theorem task?_requeue (present : (x.task? id).isSome = true) (program : τ) :
    (x.requeue id program).task? id = some program := by
  obtain ⟨more, hmore⟩ := requeue_eq (x := x) program
  rw [hmore]
  exact task?_place program present

theorem mem_ready_requeue (present : (x.task? id).isSome = true) (program : τ) :
    id ∈ (x.requeue id program).ready := by
  have hplaced : (((x.place id program).forget id).task? id).isSome = true := by
    rw [show ((x.place id program).forget id).task? id = (x.place id program).task? id from rfl,
      task?_place program present]
    rfl
  exact mem_ready_wake hplaced nofun

/-! ## Between the steps of an executor -/

/-- The tasks are numbered, only tasks are in the queue, and it is the turn of `turn`. -/
structure Ordered (turn : Option TaskId) (x : Executor σ τ) : Prop extends Numbered x where
  queued : ∀ id ∈ x.ready, (x.task? id).isSome = true
  turn : x.running = turn

variable {turn : Option TaskId}

theorem Ordered.woken (h : Ordered turn x) (id : TaskId) : Ordered turn (x.wake id) := by
  unfold wake
  split
  · exact h
  · rename_i hnot
    refine ⟨⟨h.tasks, h.running⟩, fun other ready => ?_, h.turn⟩
    rcases List.mem_append.mp ready with hready | hid
    · exact h.queued other hready
    · rw [List.mem_singleton.mp hid]
      cases hget : x.task? id with
      | some p => exact (congrArg Option.isSome hget).trans rfl
      | none => simp [hget] at hnot

theorem Ordered.wokenAll (h : Ordered turn x) (ids : List TaskId) :
    Ordered turn (x.wakeAll ids) := by
  induction ids generalizing x with
  | nil => exact h
  | cons id rest ih => exact ih (h.woken id)

theorem Ordered.signal [DecidableEq σ] (h : Ordered turn x) (s : σ) : Ordered turn (x.signal s) :=
  wokenAll (x := { x with waits := x.waits.filter fun w => w.1 ≠ s })
    ⟨⟨h.tasks, h.running⟩, h.queued, h.turn⟩ _

theorem Ordered.moveClock (h : Ordered turn x) (now : Nat) : Ordered turn (x.moveClock now) := by
  simp only [Executor.moveClock, List.partition_eq_filter_filter]
  exact wokenAll (x := { x with now, timers := x.later now })
    ⟨⟨h.tasks, h.running⟩, h.queued, h.turn⟩ _

theorem task?_abort (x : Executor σ τ) (id other : TaskId) :
    (x.abort id).task? other = x.task? other := by
  unfold abort
  split
  · rfl
  · obtain ⟨more, hmore⟩ := wake_eq { x with doomed := id :: x.doomed } id
    rw [hmore]
    rfl

theorem Ordered.abort (h : Ordered turn x) (id : TaskId) : Ordered turn (x.abort id) := by
  unfold Executor.abort
  split
  · exact h
  · exact woken (x := { x with doomed := id :: x.doomed })
      ⟨⟨h.tasks, h.running⟩, h.queued, h.turn⟩ id

theorem Ordered.spawn (h : Ordered turn x) (program : τ) : Ordered turn (x.spawn program) where
  toNumbered := numbered_spawn h.toNumbered program
  queued id ready := by
    by_cases hid : id = x.nextTask
    · rw [hid, task?_spawn h.toNumbered]
      rfl
    · rw [task?_spawn_ne program hid]
      rcases List.mem_append.mp ready with hready | hnew
      · exact h.queued id hready
      · exact absurd (List.mem_singleton.mp hnew) hid
  turn := h.turn

theorem Ordered.call (h : Ordered none x) (queued : id ∈ x.ready) :
    Ordered (some id) (x.call id) where
  toNumbered := (keeps_call h.turn (h.queued id queued)).numbered h.toNumbered
  queued other ready := h.queued other (List.mem_filter.mp ready).1
  turn := rfl

theorem Ordered.retire (h : Ordered turn x) : Ordered none (x.retire id) where
  tasks other present := h.tasks other (task?_isSome_retire present)
  running _ := nofun
  queued other ready := by
    obtain ⟨hready, hne⟩ := List.mem_filter.mp ready
    rw [task?_retire_ne (by simpa using hne)]
    exact h.queued other hready
  turn := rfl

theorem Ordered.place (h : Ordered turn x) (program : τ) : Ordered none (x.place id program) where
  tasks other present := h.tasks other (task?_isSome_place present)
  running _ := nofun
  queued other ready := by
    have hpresent := h.queued other ready
    by_cases hid : other = id
    · subst hid
      rw [task?_place program hpresent]
      rfl
    · rw [task?_place_ne program hid]
      exact hpresent
  turn := rfl

theorem Ordered.suspend [DecidableEq σ] (h : Ordered turn x) (program : τ) (signals : List σ)
    (deadline : Option Nat) : Ordered none (x.suspend id program signals deadline) :=
  have hplaced : Ordered none (x.place id program) := h.place program
  ⟨⟨hplaced.tasks, hplaced.running⟩, hplaced.queued, hplaced.turn⟩

theorem Ordered.requeue (h : Ordered turn x) (program : τ) : Ordered none (x.requeue id program) :=
  have hplaced : Ordered none (x.place id program) := h.place program
  woken (x := (x.place id program).forget id)
    ⟨⟨hplaced.tasks, hplaced.running⟩, hplaced.queued, hplaced.turn⟩ id

/-! ## The end of a turn -/

def left (x : Executor σ τ) [DecidableEq σ] (id : TaskId) : Rest σ τ → Executor σ τ
  | .ended => x.retire id
  | .waiting program signals deadline => x.suspend id program signals deadline
  | .yielding program => x.requeue id program

section Left

variable [DecidableEq σ]

theorem keeps_left (holds : x.running = some id) (rest : Rest σ τ) :
    Keeps (some id) x (x.left id rest) := by
  cases rest with
  | ended => exact keeps_retire holds
  | waiting program signals deadline => exact keeps_suspend holds program signals deadline
  | yielding program => exact keeps_requeue holds program

theorem Ordered.left (h : Ordered turn x) (rest : Rest σ τ) : Ordered none (x.left id rest) := by
  cases rest with
  | ended => exact h.retire
  | waiting program signals deadline => exact h.suspend program signals deadline
  | yielding program => exact h.requeue program

theorem doomed_left (x : Executor σ τ) (rest : Rest σ τ) (id other : TaskId)
    (doomed : other ∈ (x.left id rest).doomed) : other ∈ x.doomed := by
  cases rest with
  | ended => exact (List.mem_filter.mp doomed).1
  | waiting program signals deadline => exact doomed
  | yielding program =>
      obtain ⟨more, hmore⟩ := requeue_eq (x := x) program
      rw [left, hmore] at doomed
      exact doomed

theorem running_left (x : Executor σ τ) (id : TaskId) (rest : Rest σ τ) :
    (x.left id rest).running = none := by
  cases rest with
  | ended | waiting => rfl
  | yielding program =>
      obtain ⟨more, hmore⟩ := requeue_eq (x := x) program
      rw [left, hmore]
      rfl

theorem nextTask_left (x : Executor σ τ) (id : TaskId) (rest : Rest σ τ) :
    (x.left id rest).nextTask = x.nextTask := by
  cases rest with
  | ended | waiting => rfl
  | yielding program =>
      obtain ⟨more, hmore⟩ := requeue_eq (x := x) program
      rw [left, hmore]
      rfl

theorem task?_left (present : (x.task? id).isSome = true) (rest : Rest σ τ) :
    (x.left id rest).task? id = rest.program? := by
  cases rest with
  | ended => exact task?_retire
  | waiting program signals deadline => exact task?_suspend present program signals deadline
  | yielding program => exact task?_requeue present program

theorem program?_of_left {rest : Rest σ τ} {p : τ} (task : (x.left id rest).task? id = some p) :
    rest.program? = some p := by
  have present : (x.task? id).isSome = true := by
    have hisSome : ((x.left id rest).task? id).isSome = true := by rw [task]; rfl
    cases rest with
    | ended =>
        rw [left, task?_retire] at hisSome
        cases hisSome
    | waiting program signals deadline => exact task?_isSome_place hisSome
    | yielding program =>
        obtain ⟨more, hmore⟩ := requeue_eq (x := x) program
        rw [left, hmore] at hisSome
        exact task?_isSome_place hisSome
  rw [← task?_left present rest, task]

end Left

/-! ## Distinct tasks -/

structure Listed (turn : Option TaskId) (x : Executor σ τ) : Prop extends Ordered turn x where
  distinct : (x.tasks.map Prod.fst).Nodup

theorem Ordered.listed (h : Ordered turn y) (distinct : (x.tasks.map Prod.fst).Nodup)
    (tasks : y.tasks.map Prod.fst = x.tasks.map Prod.fst) : Listed turn y :=
  ⟨h, by rwa [tasks]⟩

theorem Listed.task?_of_mem (h : Listed turn x) {p : τ} (mem : (id, p) ∈ x.tasks) :
    x.task? id = some p := by
  obtain ⟨before, rest, hsplit⟩ := List.append_of_mem mem
  have hdistinct := h.distinct
  rw [hsplit, List.map_append, List.map_cons, List.nodup_append] at hdistinct
  refine List.lookup_eq_some_iff.mpr ⟨before, rest, hsplit, fun q hq => ?_⟩
  exact bne_iff_ne.mpr (hdistinct.2.2 q.1 (List.mem_map_of_mem hq) id List.mem_cons_self).symm

theorem Listed.signal [DecidableEq σ] (h : Listed turn x) (s : σ) : Listed turn (x.signal s) := by
  refine (h.toOrdered.signal s).listed h.distinct ?_
  obtain ⟨more, hmore⟩ := x.signal_eq s
  rw [hmore]

theorem Listed.moveClock (h : Listed turn x) (now : Nat) : Listed turn (x.moveClock now) := by
  refine (h.toOrdered.moveClock now).listed h.distinct ?_
  obtain ⟨more, hmore⟩ := x.moveClock_eq now
  rw [hmore]

theorem Listed.abort (h : Listed turn x) (id : TaskId) : Listed turn (x.abort id) := by
  refine (h.toOrdered.abort id).listed h.distinct ?_
  unfold Executor.abort
  split
  · rfl
  · obtain ⟨more, hmore⟩ := wake_eq { x with doomed := id :: x.doomed } id
    rw [hmore]

theorem Listed.spawn (h : Listed turn x) (program : τ) : Listed turn (x.spawn program) where
  toOrdered := h.toOrdered.spawn program
  distinct := by
    have hfresh := h.toNumbered.fresh
    rw [task?, List.lookup_eq_none_iff] at hfresh
    rw [Executor.spawn, List.map_append, List.nodup_append]
    refine ⟨h.distinct, List.pairwise_singleton _ _, ?_⟩
    rintro id hid k hk rfl
    obtain ⟨t, ht, rfl⟩ := List.mem_map.mp hid
    exact absurd (List.mem_singleton.mp hk).symm (bne_iff_ne.mp (hfresh t ht))

theorem Listed.call (h : Listed none x) (queued : id ∈ x.ready) : Listed (some id) (x.call id) :=
  (h.toOrdered.call queued).listed h.distinct rfl

theorem Listed.left [DecidableEq σ] (h : Listed turn x) (rest : Rest σ τ) :
    Listed none (x.left id rest) := by
  have hplaced (program : τ) :
      (x.tasks.map fun t => if t.1 = id then (id, program) else t).map Prod.fst =
        x.tasks.map Prod.fst := by
    rw [List.map_map]
    refine List.map_congr_left fun t _ => ?_
    by_cases ht : t.1 = id <;> simp [ht]
  cases rest with
  | ended => exact ⟨h.toOrdered.retire, (List.filter_sublist.map _).nodup h.distinct⟩
  | waiting program signals deadline =>
      exact (h.toOrdered.suspend program signals deadline).listed h.distinct (hplaced program)
  | yielding program =>
      refine (h.toOrdered.requeue program).listed h.distinct ?_
      obtain ⟨more, hmore⟩ := requeue_eq (x := x) program
      rw [hmore]
      exact hplaced program

/-! ## Spared tasks -/

/-- The task is left where it is, except that it may be woken. -/
structure Spared (id : TaskId) (x y : Executor σ τ) : Prop where
  task : y.task? id = x.task? id
  idle : y.running ≠ some id
  ready : id ∈ x.ready → id ∈ y.ready
  waits : ∀ a, (a, id) ∈ x.waits → (a, id) ∈ y.waits ∨ id ∈ y.ready
  timers : ∀ deadline, ⟨deadline, id⟩ ∈ x.timers → ⟨deadline, id⟩ ∈ y.timers ∨ id ∈ y.ready

theorem Spared.refl (idle : x.running ≠ some id) : Spared id x x :=
  ⟨rfl, idle, fun h => h, fun _ => .inl, fun _ => .inl⟩

theorem Spared.trans (h₁ : Spared id x y) (h₂ : Spared id y z) : Spared id x z where
  task := h₂.task.trans h₁.task
  idle := h₂.idle
  ready h := h₂.ready (h₁.ready h)
  waits a h := (h₁.waits a h).elim (h₂.waits a) fun ready => .inr (h₂.ready ready)
  timers deadline h :=
    (h₁.timers deadline h).elim (h₂.timers deadline) fun ready => .inr (h₂.ready ready)

theorem Keeps.spared {skip : Option TaskId} (h : Keeps skip x y) (other : skip ≠ some id)
    (present : (x.task? id).isSome = true) (idle : x.running ≠ some id) : Spared id x y where
  task := h.task id other
  idle := mt (h.running id other present).mp idle
  ready := h.ready id other
  waits a := h.waits id a other present idle
  timers deadline armed := .inl (h.timers id deadline other armed)

theorem spared_moveClock (present : (x.task? id).isSome = true) (idle : x.running ≠ some id)
    (now : Nat) : Spared id x (x.moveClock now) := by
  have htimers (deadline : Nat) (armed : ⟨deadline, id⟩ ∈ x.timers) :
      ⟨deadline, id⟩ ∈ (x.moveClock now).timers ∨ id ∈ (x.moveClock now).ready :=
    (mem_timers_moveClock present idle armed).imp_left And.right
  obtain ⟨more, hmore⟩ := x.moveClock_eq now
  rw [hmore] at htimers ⊢
  exact ⟨rfl, idle, List.mem_append_left _, fun _ => .inl, htimers⟩

/-- What is done in the turn of `turn`, without an end to it, spares all other tasks. -/
structure Spares (turn : Option TaskId) (x y : Executor σ τ) : Prop where
  ordered : y.Ordered turn
  now : y.now = x.now
  doomed : y.doomed = x.doomed
  task : ∀ id, (x.task? id).isSome = true → y.task? id = x.task? id
  spared : ∀ id, (x.task? id).isSome = true → turn ≠ some id → Spared id x y

theorem Ordered.idle (h : Ordered turn x) (other : turn ≠ some id) : x.running ≠ some id := by
  rwa [h.turn]

theorem Spares.refl (h : Ordered turn x) : Spares turn x x where
  ordered := h
  now := rfl
  doomed := rfl
  task _ _ := rfl
  spared _ _ other := .refl (h.idle other)

theorem Spares.trans (h₁ : Spares turn x y) (h₂ : Spares turn y z) : Spares turn x z where
  ordered := h₂.ordered
  now := h₂.now.trans h₁.now
  doomed := h₂.doomed.trans h₁.doomed
  task id present := by
    have hfirst := h₁.task id present
    rw [← hfirst] at present ⊢
    exact h₂.task id present
  spared id present other := by
    have hfirst := h₁.spared id present other
    rw [← hfirst.task] at present
    exact hfirst.trans (h₂.spared id present other)

theorem spares_signal [DecidableEq σ] (h : Ordered turn x) (s : σ) :
    Spares turn x (x.signal s) where
  ordered := h.signal s
  now := (keeps_signal x s).now
  doomed := by
    obtain ⟨more, hmore⟩ := x.signal_eq s
    rw [hmore]
  task id _ := (keeps_signal x s).task id nofun
  spared id present other := (keeps_signal x s).spared nofun present (h.idle other)

structure Wakes (turn : Option TaskId) (told : σ → Prop) (x y : Executor σ τ) : Prop
    extends Spares turn x y where
  woken : ∀ id a, (x.task? id).isSome = true → turn ≠ some id → told a → (a, id) ∈ x.waits →
    id ∈ y.ready

variable {told more all : σ → Prop}

theorem Spares.wakes (h : Spares turn x y) (silent : ∀ a, ¬ told a) : Wakes turn told x y :=
  ⟨h, fun _ a _ _ ha => absurd ha (silent a)⟩

theorem Wakes.trans (h₁ : Wakes turn told x y) (h₂ : Wakes turn more y z)
    (each : ∀ a, all a → told a ∨ more a) : Wakes turn all x z where
  toSpares := h₁.toSpares.trans h₂.toSpares
  woken id a present other ha waits := by
    have hspared := h₁.spared id present other
    have hpresent : (y.task? id).isSome = true := by rwa [hspared.task]
    have hready (ready : id ∈ y.ready) : id ∈ z.ready := (h₂.spared id hpresent other).ready ready
    rcases each a ha with hfirst | hlater
    · exact hready (h₁.woken id a present other hfirst waits)
    · rcases hspared.waits a waits with hwaits | ready
      · exact h₂.woken id a hpresent other hlater hwaits
      · exact hready ready

theorem wakes_signal [DecidableEq σ] (h : Ordered turn x) {s : σ} (only : ∀ a, told a → a = s) :
    Wakes turn told x (x.signal s) :=
  ⟨spares_signal h s, fun _ a present other ha waits =>
    mem_ready_signal present (h.idle other) (only a ha ▸ waits)⟩

theorem spares_spawn (h : Ordered turn x) (program : τ) : Spares turn x (x.spawn program) where
  ordered := h.spawn program
  now := rfl
  doomed := rfl
  task id present := task?_spawn_ne program (Nat.ne_of_lt (h.tasks id present))
  spared id present other :=
    have hold : some x.nextTask ≠ some id := fun heq =>
      Nat.ne_of_gt (h.tasks id present) (Option.some.inj heq)
    (keeps_spawn x program).spared hold present (h.idle other)

end Executor

/-- A world whose executor can be replaced. -/
class LawfulExecutor (W : Type) {σ τ : outParam Type} [HasExecutor W σ τ] : Prop where
  executor_withExecutor : ∀ (w : W) x, HasExecutor.executor (HasExecutor.withExecutor w x) = x
  withExecutor_withExecutor : ∀ (w : W) x y,
    HasExecutor.withExecutor (HasExecutor.withExecutor w x) y = HasExecutor.withExecutor w y

namespace Hosted

open HasExecutor

variable {W σ τ : Type} [DecidableEq σ] [Hosted W σ τ]

/-- The turn of a task in the queue, wherever in the queue it is. -/
def runTurn (w : W) (id : TaskId) : W := runNext (update w (·.hasten id))

variable [LawfulExecutor W] {w : W} {id : TaskId}

theorem runTurn_eq (queued : id ∈ (executor w).ready) :
    runTurn w id =
      match (executor w).task? id with
      | none => update w (·.call id)
      | some program =>
          if (executor w).doomed.contains id then
            tidy (update (discard (update w (·.call id)) id program) (·.retire id))
          else
            tidy (leave (turn (update w (·.call id)) id program).1 id
              (turn (update w (·.call id)) id program).2) := by
  have hnext : (executor (update w (·.hasten id))).next? = some (id, (executor w).call id) := by
    rw [update, LawfulExecutor.executor_withExecutor, Executor.next?_hasten queued]
  have hcall : withExecutor (update w (·.hasten id)) ((executor w).call id) =
      update w (·.call id) := LawfulExecutor.withExecutor_withExecutor w _ _
  rw [runTurn, runNext, hnext]
  simp only [hcall]
  rfl

theorem runTurn_of_task (queued : id ∈ (executor w).ready) {program : τ}
    (task : (executor w).task? id = some program) (spared : id ∉ (executor w).doomed) :
    runTurn w id =
      tidy (leave (turn (update w (·.call id)) id program).1 id
        (turn (update w (·.call id)) id program).2) := by
  rw [runTurn_eq queued, task]
  exact if_neg (by rwa [List.contains_iff_mem])

theorem runTurn_of_doomed (queued : id ∈ (executor w).ready) {program : τ}
    (task : (executor w).task? id = some program) (doomed : id ∈ (executor w).doomed) :
    runTurn w id =
      tidy (update (discard (update w (·.call id)) id program) (·.retire id)) := by
  rw [runTurn_eq queued, task]
  exact if_pos (List.contains_iff_mem.mpr doomed)

theorem executor_leave (w : W) (id : TaskId) (rest : Rest σ τ) :
    executor (leave w id rest) = (executor w).left id rest := by
  cases rest <;> exact LawfulExecutor.executor_withExecutor w _

end Hosted

end Lifecycle
