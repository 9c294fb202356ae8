import Lifecycle.Proofs.Debouncer.Turn
import Mathlib.Data.List.TakeWhile

/-!
# A debouncer is one slot

Whatever the tasks do, and whatever the actions ask for while they run, a debouncer looks like one
slot from outside: an action that is called for starts when it is due, once, unless another call or
the end of the debouncer comes first.  From then on nothing that happens to the debouncer touches
the action.
-/

namespace Lifecycle.Debouncer.Scenario

open HasExecutor

variable {given : DebounceSettings} {w : World} {log before after : List (Entry Action)}
  {id : TaskId} {number called : Nat} {action : Action} {delay : Span}

theorem kept_fresh (given : DebounceSettings) : Kept given none (World.fresh given) [] where
  legal := .nil
  ordered := ⟨⟨nofun, nofun⟩, nofun, rfl⟩
  doomed := rfl
  settings := rfl
  calls := rfl
  pending := rfl
  lastStart := rfl
  discarded := nofun
  armed := nofun
  free _ := nofun
  starts := rfl
  past := nofun

theorem Kept.run {acts : List Act} (kept : Kept given none w log)
    (orderly : w.orderly acts = true) : Kept given none (w.after acts) (log ++ w.log acts) := by
  induction acts generalizing w log with
  | nil =>
      rw [World.log, List.append_nil]
      exact kept
  | cons a rest ih =>
      rw [World.orderly_cons] at orderly
      rw [World.log, ← List.append_assoc]
      exact ih (kept.perform orderly.1) orderly.2

/-! ## Started actions -/

theorem spares_turn {turn : Option TaskId} (ordered : w.executor.Ordered turn) (id : TaskId)
    (t : Task) : Executor.Spares turn w.executor (Hosted.turn w id t).1.executor := by
  cases t with
  | acting name rest => exact spares_runAction ordered name rest
  | held job name body =>
      simp only [Hosted.turn]
      cases w.debouncer.poll w.executor.now job with
      | dropped => exact .refl ordered
      | sleep deadline => exact .refl ordered
      | start debouncer =>
          exact spares_runAction (w := { w with debouncer }.note (.started name)) ordered name body

theorem Kept.spared {a : Act} (kept : Kept given none w log) (admitted : w.admits a = true)
    (present : (w.executor.task? id).isSome = true) (other : a ≠ .turn id) :
    Executor.Spared id w.executor (w.perform a).executor := by
  have hidle : w.executor.running ≠ some id := kept.ordered.idle nofun
  cases a with
  | schedule name delay body =>
      rw [World.perform, World.take]
      split
      · exact (spares_schedule kept.ordered name delay body).spared id present nofun
      · exact .refl hidle
  | drop =>
      rw [World.perform, World.take]
      split
      · exact (spares_discard kept.ordered).spared id present nofun
      · exact .refl hidle
  | release latch =>
      exact (Executor.spares_signal kept.ordered _).spared id present nofun
  | clock target => exact Executor.spared_moveClock present hidle target
  | turn k =>
      have hk : some k ≠ some id := fun heq => other (by rw [Option.some.inj heq])
      have hqueued : k ∈ w.executor.ready := List.contains_iff_mem.mp admitted
      have hpresent := kept.ordered.queued k hqueued
      obtain ⟨t, htask⟩ := Option.isSome_iff_exists.mp hpresent
      have hcall := (Executor.keeps_call kept.ordered.turn hpresent).spared hk present hidle
      have hspares := spares_turn (w := update w (·.call k)) (kept.ordered.call hqueued) k t
      have hturn := hspares.spared id present hk
      rw [perform_turn kept hqueued htask]
      generalize Hosted.turn (update w (·.call k)) k t = result at hspares hturn ⊢
      have hthen := (hspares.task id present).symm ▸ present
      have hleft := (Executor.keeps_left hspares.ordered.turn result.2).spared hk hthen
        (hspares.ordered.idle hk)
      have hexecutor : (Hosted.leave result.1 k result.2).executor =
          result.1.executor.left k result.2 := Hosted.executor_leave result.1 k result.2
      rw [hexecutor]
      exact hcall.trans (hturn.trans hleft)

/-! ## What the log tells -/

theorem Kept.starts_iff
    (kept : Kept given none w (before ++ .scheduled number action called delay :: after))
    (settled : w.executor.ready = [] ∨ w.executor.now ≠
      called + ((Slot.replay given.leading before).wait given.leading called delay).ceilMs) :
    (∃ e ∈ after, e.starts number = true) ↔
      (∀ e ∈ after.takeWhile (!·.starts number), e.discards = false) ∧
      called + ((Slot.replay given.leading before).wait given.leading called delay).ceilMs ≤
        w.executor.now := by
  constructor
  · rintro ⟨e, he, hstarts⟩
    obtain ⟨rfl, rest, rfl⟩ := kept.legal.started_next he hstarts
    constructor
    · intro other hother
      simp [Entry.starts] at hother
    · exact kept.past (_, action) (List.mem_filterMap.mpr
        ⟨_, List.mem_append_right _ (List.mem_cons_of_mem _ List.mem_cons_self), rfl⟩)
  · rintro ⟨undisturbed, elapsed⟩
    apply Classical.byContradiction
    intro hnone
    have hwaits : ∀ e ∈ after, e.starts number = false := by
      intro e he
      rw [Bool.eq_false_iff]
      exact fun hstarts => hnone ⟨e, he, hstarts⟩
    have hall : after.takeWhile (!·.starts number) = after :=
      List.takeWhile_eq_self_iff.mpr fun e he => by rw [hwaits e he]; rfl
    rw [hall] at undisturbed
    obtain rfl := kept.legal.last_of_undisturbed undisturbed hwaits
    -- The action is in the slot, and its task would be in the queue.
    obtain ⟨id, job, _, armed, _⟩ := kept.armed ⟨number, action, _⟩
      (Slot.held_eq_some_iff.mpr ⟨before, called, delay, rfl, rfl⟩)
    have hle := armed.ends.le
    have hdue := Nat.le_antisymm hle elapsed
    rcases armed.rings with hready | ⟨hlater, _⟩
    · rw [settled.resolve_right (not_not_intro hdue)] at hready
      cases hready
    · exact Nat.ne_of_lt hlater hdue

theorem Kept.isPending_iff {turn : Option TaskId} (kept : Kept given turn w log) :
    w.debouncer.isPending = true ↔
      ∃ before number action called delay after,
        log = before ++ .scheduled number action called delay :: after ∧
          ∀ e ∈ after, e.discards = false ∧ e.starts number = false := by
  rw [isPending, kept.pending, Option.isSome_map]
  constructor
  · intro pending
    obtain ⟨h, hheld⟩ := Option.isSome_iff_exists.mp pending
    obtain ⟨before, called, delay, rfl, _⟩ := Slot.held_eq_some_iff.mp hheld
    exact ⟨before, h.number, h.action, called, delay, [], rfl, nofun⟩
  · rintro ⟨before, number, action, called, delay, after, rfl, undisturbed⟩
    obtain rfl := kept.legal.last_of_undisturbed (fun e he => (undisturbed e he).1)
      fun e he => (undisturbed e he).2
    rw [Slot.replay_append_singleton]
    rfl

/-- What users can rely on.  An action starts unless something else comes first, and exactly when it
is due; a started one goes on in its own turns, and nothing else touches it. -/
structure Faithful (given : DebounceSettings) (w : World) (log : List (Entry Action)) : Prop where
  legal : Slot.Legal given.leading log
  recorded : w.starts = (log.filterMap Entry.start?).map fun s => (s.1, s.2.1)
  once : ∀ n, log.countP (·.starts n) ≤ 1
  starts : ∀ before number action called delay after,
    log = before ++ .scheduled number action called delay :: after →
    let due := called + ((Slot.replay given.leading before).wait given.leading called delay).ceilMs
    (w.executor.ready = [] ∨ w.executor.now ≠ due →
      ((∃ e ∈ after, e.starts number = true) ↔
        (∀ e ∈ after.takeWhile (!·.starts number), e.discards = false) ∧
          due ≤ w.executor.now)) ∧
      ∀ e ∈ after, e.starts number = true → e = .started number action due
  pending : w.debouncer.isPending = true ↔
    ∃ before number action called delay after,
      log = before ++ .scheduled number action called delay :: after ∧
        ∀ e ∈ after, e.discards = false ∧ e.starts number = false
  uninterrupted : ∀ id name rest, w.executor.task? id = some (.acting name rest) →
    (∀ a, w.admits a = true → a ≠ .turn id →
      Executor.Spared id w.executor (w.perform a).executor) ∧
    (w.admits (.turn id) = true →
      let course := runAction (update w (·.call id)) name rest
      w.perform (.turn id) = Hosted.leave course.1 id course.2)

theorem debouncer_refines_slot (settings : DebounceSettings) (acts : List Act)
    (orderly : (World.fresh settings).orderly acts = true) :
    Faithful settings ((World.fresh settings).after acts) ((World.fresh settings).log acts) := by
  have kept := (kept_fresh settings).run orderly
  rw [List.nil_append] at kept
  generalize (World.fresh settings).after acts = w at kept ⊢
  generalize (World.fresh settings).log acts = log at kept ⊢
  constructor
  · exact kept.legal
  · exact kept.starts
  · exact kept.legal.starts_once
  · rintro before number action called delay after rfl
    exact ⟨kept.starts_iff, fun e he hstarts => (kept.legal.started_next he hstarts).1⟩
  · exact kept.isPending_iff
  · intro id name rest task
    refine ⟨fun a admitted other => ?_, fun admitted => ?_⟩
    · refine kept.spared admitted ?_ other
      rw [task]
      rfl
    · exact perform_turn kept (List.contains_iff_mem.mp admitted) task

/-- The first action asks for another one and goes on; the last one comes too late. -/
def editing : List Act :=
  [.schedule "save" none [.schedule "index" (some (.ofMs 20)) [], .pause (.hold "disk")],
    .turn 0, .turn 1, .clock 20, .turn 1, .schedule "upload" none [], .turn 2, .drop, .turn 2,
    .release "disk", .turn 0]

theorem slot_of_dropped_editing :
    (World.fresh { leading := true }).orderly editing = true ∧
      ((World.fresh { leading := true }).after editing).starts = [(0, "save"), (20, "index")] ∧
      Faithful { leading := true } ((World.fresh { leading := true }).after editing)
        ((World.fresh { leading := true }).log editing) := by
  have horderly : (World.fresh { leading := true }).orderly editing = true := by
    decide +kernel
  exact ⟨horderly, by decide +kernel, debouncer_refines_slot { leading := true } editing horderly⟩

end Lifecycle.Debouncer.Scenario
