import Lifecycle.Executor

/-!
# Tasks, queue and waits of an executor

No step of the executor loses a task: one that waits for a signal is in the queue once the signal is
given, and one with a timer once the timer has rung.
-/

namespace Lifecycle.Executor

variable {σ τ : Type} {x : Executor σ τ} {id other : TaskId}

structure Numbered (x : Executor σ τ) : Prop where
  tasks : ∀ id, (x.task? id).isSome = true → id < x.nextTask
  running : ∀ id, x.running = some id → id < x.nextTask

theorem Numbered.fresh (h : x.Numbered) : x.task? x.nextTask = none := by
  cases hget : x.task? x.nextTask with
  | none => rfl
  | some p => exact absurd (h.tasks _ (by rw [hget]; rfl)) (Nat.lt_irrefl _)

theorem Numbered.idle (h : x.Numbered) : x.running ≠ some x.nextTask :=
  fun running => Nat.lt_irrefl _ (h.running _ running)

/-! ## Adding, moving and removing tasks -/

theorem task?_spawn (h : x.Numbered) (program : τ) :
    (x.spawn program).task? x.nextTask = some program := by
  have hfresh := h.fresh
  rw [task?] at hfresh
  simp [task?, spawn, List.lookup_append, hfresh]

theorem task?_spawn_ne (program : τ) (ne : other ≠ x.nextTask) :
    (x.spawn program).task? other = x.task? other := by
  have hne : (other == x.nextTask) = false := beq_eq_false_iff_ne.mpr ne
  simp [task?, spawn, List.lookup_append, List.lookup_cons, hne]

theorem task?_of_spawn {program p : τ} (h : x.Numbered)
    (task : (x.spawn program).task? other = some p) :
    other = x.nextTask ∧ p = program ∨ x.task? other = some p := by
  by_cases hother : other = x.nextTask
  · rw [hother, task?_spawn h] at task
    exact .inl ⟨hother, (Option.some.inj task).symm⟩
  · exact .inr ((task?_spawn_ne program hother).symm.trans task)

theorem numbered_spawn (h : x.Numbered) (program : τ) : (x.spawn program).Numbered where
  tasks id present := by
    by_cases hid : id = x.nextTask
    · rw [hid]
      exact Nat.lt_succ_self _
    · rw [task?_spawn_ne program hid] at present
      exact Nat.lt_succ_of_lt (h.tasks id present)
  running id running := Nat.lt_succ_of_lt (h.running id running)

def replaced (id : TaskId) (program : τ) (tasks : List (TaskId × τ)) : List (TaskId × τ) :=
  tasks.map fun t => if t.1 = id then (id, program) else t

theorem lookup_replaced (program : τ) {tasks : List (TaskId × τ)}
    (present : (tasks.lookup id).isSome = true) :
    (replaced id program tasks).lookup id = some program := by
  induction tasks with
  | nil => cases present
  | cons t rest ih =>
      obtain ⟨first, p⟩ := t
      rw [replaced, List.map_cons]
      by_cases hfirst : first = id
      · simp [hfirst]
      · have hne : (id == first) = false := beq_eq_false_iff_ne.mpr (Ne.symm hfirst)
        rw [List.lookup_cons, hne] at present
        rw [if_neg hfirst, List.lookup_cons, hne]
        exact ih present

theorem lookup_replaced_ne (program : τ) (tasks : List (TaskId × τ)) (ne : other ≠ id) :
    (replaced id program tasks).lookup other = tasks.lookup other := by
  induction tasks with
  | nil => rfl
  | cons t rest ih =>
      obtain ⟨first, p⟩ := t
      rw [replaced, List.map_cons, List.lookup_cons]
      by_cases hfirst : first = id
      · have hne : (other == id) = false := beq_eq_false_iff_ne.mpr ne
        rw [if_pos hfirst, List.lookup_cons, hfirst, hne]
        exact ih
      · rw [if_neg hfirst, List.lookup_cons]
        cases other == first with
        | true => rfl
        | false => exact ih

theorem lookup_filter_ne (tasks : List (TaskId × τ)) (ne : other ≠ id) :
    (tasks.filter fun t => t.1 ≠ id).lookup other = tasks.lookup other := by
  induction tasks with
  | nil => rfl
  | cons t rest ih =>
      obtain ⟨first, p⟩ := t
      by_cases hfirst : first = id
      · have hne : (other == id) = false := beq_eq_false_iff_ne.mpr ne
        rw [List.filter_cons_of_neg (by simp [hfirst]), List.lookup_cons, hfirst, hne]
        exact ih
      · rw [List.filter_cons_of_pos (by simp [hfirst]), List.lookup_cons, List.lookup_cons]
        cases other == first with
        | true => rfl
        | false => exact ih

theorem task?_place (program : τ) (present : (x.task? id).isSome = true) :
    (x.place id program).task? id = some program :=
  lookup_replaced program present

theorem task?_place_ne (program : τ) (ne : other ≠ id) :
    (x.place id program).task? other = x.task? other :=
  lookup_replaced_ne program x.tasks ne

theorem task?_retire : (x.retire id).task? id = none := by
  simp only [task?, retire, List.lookup_eq_none_iff]
  intro t ht
  have hne := (List.mem_filter.mp ht).2
  simp at hne
  simpa using Ne.symm hne

theorem task?_retire_ne (ne : other ≠ id) : (x.retire id).task? other = x.task? other :=
  lookup_filter_ne x.tasks ne

theorem task?_isSome_place {program : τ}
    (present : ((x.place id program).task? other).isSome = true) :
    (x.task? other).isSome = true := by
  by_cases hother : other = id
  · subst hother
    cases hget : x.task? other with
    | some p => rfl
    | none =>
        rw [task?, List.lookup_eq_none_iff] at hget
        have hnone : (x.place other program).task? other = none := by
          rw [task?, List.lookup_eq_none_iff]
          intro t ht
          obtain ⟨u, hu, rfl⟩ := List.mem_map.mp ht
          have hne := hget u hu
          rw [bne_iff_ne] at hne ⊢
          rwa [if_neg (Ne.symm hne)]
        rw [hnone] at present
        cases present
  · rwa [task?_place_ne program hother] at present

theorem task?_isSome_retire (present : ((x.retire id).task? other).isSome = true) :
    (x.task? other).isSome = true := by
  by_cases hother : other = id
  · rw [hother, task?_retire] at present
    cases present
  · rwa [task?_retire_ne hother] at present

/-! ## Waking -/

theorem wake_eq (x : Executor σ τ) (id : TaskId) :
    ∃ more, x.wake id = { x with ready := x.ready ++ more } := by
  unfold wake
  split
  · exact ⟨[], by rw [List.append_nil]⟩
  · exact ⟨[id], rfl⟩

theorem wakeAll_eq (x : Executor σ τ) (ids : List TaskId) :
    ∃ more, x.wakeAll ids = { x with ready := x.ready ++ more } := by
  induction ids generalizing x with
  | nil => exact ⟨[], by rw [List.append_nil]; rfl⟩
  | cons id rest ih =>
      obtain ⟨first, hfirst⟩ := x.wake_eq id
      obtain ⟨later, hlater⟩ := ih (x.wake id)
      refine ⟨first ++ later, ?_⟩
      rw [wakeAll, List.foldl_cons]
      rw [wakeAll] at hlater
      rw [hlater, hfirst, List.append_assoc]

theorem mem_ready_wake (present : (x.task? id).isSome = true) (idle : x.running ≠ some id) :
    id ∈ (x.wake id).ready := by
  unfold wake
  split
  · rename_i h
    have hnone : (x.task? id).isNone = false := by
      rw [← Option.not_isSome, present]
      rfl
    have hrunning : (x.running == some id) = false := beq_eq_false_iff_ne.mpr idle
    simpa [hnone, hrunning] using h
  · simp

theorem mem_ready_wakeAll {ids : List TaskId} (present : (x.task? id).isSome = true)
    (idle : x.running ≠ some id) (woken : id ∈ ids ∨ id ∈ x.ready) :
    id ∈ (x.wakeAll ids).ready := by
  induction ids generalizing x with
  | nil => exact woken.resolve_left List.not_mem_nil
  | cons first rest ih =>
      obtain ⟨more, hmore⟩ := x.wake_eq first
      have hpresent : ((x.wake first).task? id).isSome = true := by
        rw [hmore]
        exact present
      have hidle : (x.wake first).running ≠ some id := by
        rw [hmore]
        exact idle
      apply ih hpresent hidle
      rcases woken with hid | hready
      · rcases List.mem_cons.mp hid with rfl | hrest
        · exact .inr (mem_ready_wake present idle)
        · exact .inl hrest
      · right
        rw [hmore]
        exact List.mem_append_left _ hready

/-! ## The clock -/

def later (x : Executor σ τ) (now : Nat) : List Timer :=
  x.timers.filter fun t => !decide (t.deadline ≤ now)

/-- The clock rings timers and adds to the queue; it changes nothing else. -/
theorem moveClock_eq (x : Executor σ τ) (now : Nat) :
    ∃ more, x.moveClock now =
      { x with now, timers := x.later now, ready := x.ready ++ more } := by
  simp only [moveClock, List.partition_eq_filter_filter]
  exact wakeAll_eq _ _

theorem mem_timers_moveClock {now deadline : Nat} (present : (x.task? id).isSome = true)
    (idle : x.running ≠ some id) (armed : ⟨deadline, id⟩ ∈ x.timers) :
    now < deadline ∧ ⟨deadline, id⟩ ∈ (x.moveClock now).timers ∨
      id ∈ (x.moveClock now).ready := by
  by_cases hdue : deadline ≤ now
  · right
    simp only [moveClock, List.partition_eq_filter_filter]
    apply mem_ready_wakeAll (x := { x with now, timers := _ }) present idle
    left
    refine List.mem_map.mpr ⟨⟨deadline, id⟩, ?_, rfl⟩
    rw [List.mem_mergeSort]
    exact List.mem_filter.mpr ⟨armed, by simpa using hdue⟩
  · left
    obtain ⟨more, hmore⟩ := x.moveClock_eq now
    rw [hmore]
    exact ⟨by omega, List.mem_filter.mpr ⟨armed, by simpa using hdue⟩⟩

theorem moveClock_singleton {t : Timer} {now : Nat} (timers : x.timers = [t])
    (due : t.deadline ≤ now) :
    x.moveClock now = { x with now, timers := [] }.wake t.task := by
  simp [moveClock, timers, due, wakeAll]

/-! ## What is kept -/

/-- All tasks are as before, but for the one with the number `skip`. -/
structure Keeps (skip : Option TaskId) (x y : Executor σ τ) : Prop where
  now : y.now = x.now
  numbered : x.Numbered → y.Numbered
  task : ∀ id, skip ≠ some id → y.task? id = x.task? id
  running : ∀ id, skip ≠ some id → (x.task? id).isSome = true →
    (y.running = some id ↔ x.running = some id)
  ready : ∀ id, skip ≠ some id → id ∈ x.ready → id ∈ y.ready
  waits : ∀ id a, skip ≠ some id → (x.task? id).isSome = true → x.running ≠ some id →
    (a, id) ∈ x.waits → (a, id) ∈ y.waits ∨ id ∈ y.ready
  timers : ∀ id deadline, skip ≠ some id → ⟨deadline, id⟩ ∈ x.timers → ⟨deadline, id⟩ ∈ y.timers

theorem keeps_spawn (x : Executor σ τ) (program : τ) :
    Keeps (some x.nextTask) x (x.spawn program) where
  now := rfl
  numbered h := numbered_spawn h program
  task id other := task?_spawn_ne program fun heq => other (by rw [heq])
  running _ _ _ := Iff.rfl
  ready _ _ := List.mem_append_left _
  waits _ _ _ _ _ := .inl
  timers _ _ _ := id

theorem keeps_retire (holds : x.running = some id) : Keeps (some id) x (x.retire id) where
  now := rfl
  numbered h := ⟨fun other present => h.tasks other (task?_isSome_retire present), nofun⟩
  task other ne := task?_retire_ne fun heq => ne (by rw [heq])
  running other ne _ := by
    rw [holds]
    exact ⟨nofun, fun heq => absurd heq ne⟩
  ready other ne ready := by
    refine List.mem_filter.mpr ⟨ready, ?_⟩
    have hother : other ≠ id := fun heq => ne (by rw [heq])
    simpa using hother
  waits other a ne _ _ waits := by
    left
    refine List.mem_filter.mpr ⟨waits, ?_⟩
    have hother : other ≠ id := fun heq => ne (by rw [heq])
    simpa using hother
  timers other deadline ne armed := by
    refine List.mem_filter.mpr ⟨armed, ?_⟩
    have hother : other ≠ id := fun heq => ne (by rw [heq])
    simpa using hother

/-! ## Signals and waits -/

variable [DecidableEq σ]

theorem signal_eq (x : Executor σ τ) (s : σ) :
    ∃ more, x.signal s =
      { x with waits := x.waits.filter fun w => w.1 ≠ s, ready := x.ready ++ more } :=
  wakeAll_eq _ _

theorem mem_ready_signal {s : σ} (present : (x.task? id).isSome = true) (idle : x.running ≠ some id)
    (waits : (s, id) ∈ x.waits) : id ∈ (x.signal s).ready := by
  apply mem_ready_wakeAll (x := { x with waits := x.waits.filter fun w => w.1 ≠ s }) present idle
  left
  exact List.mem_map.mpr ⟨(s, id), List.mem_filter.mpr ⟨waits, by simp⟩, rfl⟩

theorem mem_waits_signal {s a : σ} (present : (x.task? id).isSome = true)
    (idle : x.running ≠ some id) (waits : (a, id) ∈ x.waits) :
    (a, id) ∈ (x.signal s).waits ∨ id ∈ (x.signal s).ready := by
  by_cases ha : a = s
  · exact .inr (mem_ready_signal present idle (ha ▸ waits))
  · obtain ⟨more, hmore⟩ := x.signal_eq s
    rw [hmore]
    exact .inl (List.mem_filter.mpr ⟨waits, by simpa using ha⟩)

theorem keeps_signal (x : Executor σ τ) (s : σ) : Keeps none x (x.signal s) := by
  obtain ⟨more, hmore⟩ := x.signal_eq s
  constructor
  · rw [hmore]
  · rw [hmore]
    exact fun h => ⟨h.tasks, h.running⟩
  · rw [hmore]
    exact fun _ _ => rfl
  · rw [hmore]
    exact fun _ _ _ => Iff.rfl
  · rw [hmore]
    exact fun _ _ => List.mem_append_left _
  · exact fun _ _ _ => mem_waits_signal
  · rw [hmore]
    exact fun _ _ _ => id

theorem keeps_suspend (holds : x.running = some id) (program : τ) (signals : List σ)
    (deadline : Option Nat) : Keeps (some id) x (x.suspend id program signals deadline) where
  now := rfl
  numbered h := ⟨fun other present => h.tasks other (task?_isSome_place present), nofun⟩
  task other ne := task?_place_ne program fun heq => ne (by rw [heq])
  running other ne _ := by
    rw [holds]
    exact ⟨nofun, fun heq => absurd heq ne⟩
  ready _ _ ready := ready
  waits other a ne _ _ waits := by
    left
    refine List.mem_append_left _ (List.mem_filter.mpr ⟨waits, ?_⟩)
    have hother : other ≠ id := fun heq => ne (by rw [heq])
    simp [hother]
  timers other deadline ne armed := by
    refine List.mem_append_left _ (List.mem_filter.mpr ⟨armed, ?_⟩)
    have hother : other ≠ id := fun heq => ne (by rw [heq])
    simpa using hother

theorem task?_suspend (present : (x.task? id).isSome = true) (program : τ) (signals : List σ)
    (deadline : Option Nat) :
    (x.suspend id program signals deadline).task? id = some program :=
  task?_place program present

theorem mem_waits_suspend {a : σ} {signals : List σ} (waits : a ∈ signals) (program : τ)
    (deadline : Option Nat) : (a, id) ∈ (x.suspend id program signals deadline).waits := by
  by_cases hkept : (a, id) ∈ x.waits
  · refine List.mem_append_left _ (List.mem_filter.mpr ⟨hkept, ?_⟩)
    simpa using waits
  · refine List.mem_append_right _ (List.mem_filter.mpr ⟨?_, ?_⟩)
    · exact List.mem_map.mpr ⟨a, waits, rfl⟩
    · have hnot : (a, id) ∉ (x.place id program).waits := hkept
      simp [hnot]

theorem mem_timers_suspend (program : τ) (signals : List σ) (deadline : Nat) :
    ⟨deadline, id⟩ ∈ (x.suspend id program signals (some deadline)).timers :=
  List.mem_append_right _ (List.mem_singleton_self _)

end Lifecycle.Executor
