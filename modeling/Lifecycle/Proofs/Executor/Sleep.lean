import Lifecycle.Proofs.Executor.Turns

/-!
# Tasks asleep

A task is asleep from the moment it leaves its turn to the moment at which one of its signals is
given or its timer rings.  Nothing else wakes it.
-/

namespace Lifecycle.Executor

variable {σ τ : Type} {x : Executor σ τ} {id other : TaskId} {signals : List σ}
  {deadline : Option Nat}

/-- The task waits for these signals and this deadline, and for nothing else. -/
structure Asleep (x : Executor σ τ) (id : TaskId) (signals : List σ) (deadline : Option Nat) :
    Prop where
  unready : id ∉ x.ready
  waits : ∀ s, (s, id) ∈ x.waits ↔ s ∈ signals
  timers : ∀ time, ⟨time, id⟩ ∈ x.timers ↔ deadline = some time

/-! ## What wakes nobody else -/

theorem unready_wake (unready : id ∉ x.ready) (spared : x.running = some id ∨ id ≠ other) :
    id ∉ (x.wake other).ready := by
  unfold wake
  split
  · exact unready
  · rename_i hnot
    rw [List.mem_append, List.mem_singleton]
    rintro (hready | rfl)
    · exact unready hready
    · rcases spared with hrunning | hne
      · simp [hrunning] at hnot
      · exact hne rfl

theorem unready_wakeAll {ids : List TaskId} (unready : id ∉ x.ready)
    (spared : x.running = some id ∨ id ∉ ids) : id ∉ (x.wakeAll ids).ready := by
  induction ids generalizing x with
  | nil => exact unready
  | cons first rest ih =>
      obtain ⟨more, hmore⟩ := x.wake_eq first
      apply ih
      · exact unready_wake unready (spared.imp_right fun h => List.ne_of_not_mem_cons h)
      · rw [hmore]
        exact spared.imp_right List.not_mem_of_not_mem_cons

theorem unready_call (x : Executor σ τ) (id : TaskId) : id ∉ (x.call id).ready := by
  simp [call]

/-! ## What leaves a task asleep -/

theorem Asleep.spawn (h : Asleep x id signals deadline) (program : τ) (old : id ≠ x.nextTask) :
    Asleep (x.spawn program) id signals deadline where
  unready := by simpa [Executor.spawn, h.unready] using old
  waits := h.waits
  timers := h.timers

theorem Asleep.call (h : Asleep x id signals deadline) (other : TaskId) :
    Asleep (x.call other) id signals deadline where
  unready ready := h.unready (List.mem_filter.mp ready).1
  waits := h.waits
  timers := h.timers

theorem Asleep.moveClock (h : Asleep x id signals deadline) {now : Nat}
    (later : ∀ time, deadline = some time → now < time) :
    Asleep (x.moveClock now) id signals deadline := by
  have hready : id ∉ (x.moveClock now).ready := by
    simp only [Executor.moveClock, List.partition_eq_filter_filter]
    refine unready_wakeAll (x := { x with now, timers := _ }) h.unready (.inr fun mem => ?_)
    obtain ⟨⟨time, task⟩, ht, rfl⟩ := List.mem_map.mp mem
    obtain ⟨armed, due⟩ := List.mem_filter.mp (List.mem_mergeSort.mp ht)
    have hlater := later time ((h.timers time).mp armed)
    simp at due
    omega
  obtain ⟨more, hmore⟩ := x.moveClock_eq now
  rw [hmore] at hready ⊢
  refine ⟨hready, h.waits, fun time => ?_⟩
  rw [Executor.later, List.mem_filter, h.timers, and_iff_left_iff_imp]
  intro hdeadline
  simpa using later time hdeadline

variable [DecidableEq σ]

theorem unready_signal (unready : id ∉ x.ready) {s : σ}
    (spared : x.running = some id ∨ (s, id) ∉ x.waits) : id ∉ (x.signal s).ready := by
  refine unready_wakeAll (x := { x with waits := x.waits.filter fun w => w.1 ≠ s }) unready
    (spared.imp_right fun free mem => ?_)
  obtain ⟨⟨a, task⟩, hw, rfl⟩ := List.mem_map.mp mem
  obtain ⟨waits, heq⟩ := List.mem_filter.mp hw
  exact free (of_decide_eq_true heq ▸ waits)

theorem ready_signalAll (ready : id ∈ x.ready) (given : List σ) :
    id ∈ (given.foldl signal x).ready := by
  induction given generalizing x with
  | nil => exact ready
  | cons s rest ih => exact ih ((x.keeps_signal s).ready id (by simp) ready)

theorem Asleep.signal (h : Asleep x id signals deadline) {s : σ} (other : s ∉ signals) :
    Asleep (x.signal s) id signals deadline := by
  have hready := unready_signal h.unready (.inr (mt (h.waits s).mp other))
  obtain ⟨more, hmore⟩ := x.signal_eq s
  rw [hmore] at hready ⊢
  refine ⟨hready, fun a => ?_, h.timers⟩
  rw [List.mem_filter, h.waits, and_iff_left_iff_imp]
  rintro ha
  exact decide_eq_true fun heq => other (heq ▸ ha)

theorem Asleep.signalAll (h : Asleep x id signals deadline) (present : (x.task? id).isSome = true)
    (idle : x.running ≠ some id) (given : List σ) :
    if given.any signals.contains then id ∈ (given.foldl Executor.signal x).ready
    else Asleep (given.foldl Executor.signal x) id signals deadline := by
  induction given generalizing x with
  | nil => exact h
  | cons s rest ih =>
      have hkeeps := x.keeps_signal s
      rw [List.any_cons, List.foldl_cons]
      by_cases hs : s ∈ signals
      · have hready : id ∈ (x.signal s).ready :=
          mem_ready_signal present idle ((h.waits s).mpr hs)
        rw [if_pos (by simp [hs])]
        exact ready_signalAll hready rest
      · have hpresent : ((x.signal s).task? id).isSome = true := by
          rwa [hkeeps.task id (by simp)]
        have hidle := mt (hkeeps.running id (by simp) present).mp idle
        rw [List.contains_eq_mem, decide_eq_false hs, Bool.false_or]
        exact ih (h.signal hs) hpresent hidle

theorem Asleep.left (h : Asleep x id signals deadline) (ne : id ≠ other) (rest : Rest σ τ) :
    Asleep (x.left other rest) id signals deadline := by
  cases rest with
  | ended =>
      refine ⟨fun ready => h.unready (List.mem_filter.mp ready).1, fun s => ?_, fun time => ?_⟩
      · simp [Executor.left, retire, forget, ne, h.waits]
      · simp [Executor.left, retire, forget, ne, h.timers]
  | waiting program awaited until' =>
      refine ⟨h.unready, fun s => ?_, fun time => ?_⟩
      · simp [Executor.left, suspend, place, ne, Ne.symm ne, h.waits]
      · simp [Executor.left, suspend, place, ne, Ne.symm ne, h.timers]
  | yielding program =>
      have hready : id ∉ (x.left other (.yielding program)).ready :=
        unready_wake h.unready (.inr ne)
      obtain ⟨more, hmore⟩ := requeue_eq (x := x) program
      rw [Executor.left, hmore] at hready ⊢
      refine ⟨hready, fun s => ?_, fun time => ?_⟩
      · simp [forget, place, ne, h.waits]
      · simp [forget, place, ne, h.timers]

theorem asleep_suspend (unready : id ∉ x.ready) (program : τ) (signals : List σ)
    (deadline : Option Nat) :
    Asleep (x.suspend id program signals deadline) id signals deadline := by
  refine ⟨unready, fun s => ⟨fun waits => ?_, fun mem => mem_waits_suspend mem program deadline⟩,
    fun time => ?_⟩
  · rcases List.mem_append.mp waits with hkept | hnew
    · simpa using (List.mem_filter.mp hkept).2
    · obtain ⟨a, ha, heq⟩ := List.mem_map.mp (List.mem_filter.mp hnew).1
      exact (Prod.mk.inj heq).1 ▸ ha
  · have hnone : ⟨time, id⟩ ∉ (x.timers.filter fun t => t.task ≠ id) := by simp
    refine (List.mem_append.trans (or_iff_right hnone)).trans ?_
    cases deadline <;> simp [eq_comm]

end Lifecycle.Executor
