import Lifecycle.Proofs.Hosting.Effects

/-!
# The grace period of a hosted gate

While a gate is draining, one of its tasks will end the grace period: that task is in the queue or
its timer is running, and nothing discards its job.  The timer rings as long after the beginning of
the grace period as the settings say.
-/

namespace Lifecycle.Gate.Hosting

open HasExecutor
open State (Paced Manned Move)

variable {W σ τ γ κ η : Type} [Hosting W σ τ γ κ η]

structure Timed (w : W) (since : Nat) (job : Debouncer.Job) : Prop where
  number : job.number = (timer w).generation
  kept : job.number ∉ (timer w).discarded
  wait : (state w).grace = some job.wait
  course : job.deadline = none ∧ now w = since ∨
    job.deadline = some (since + job.wait.ceilMs) ∧ since ≤ now w ∧
      now w ≤ since + job.wait.ceilMs

/-- The grace period that began at the time `since` is under way. -/
structure Window (w : W) (since : Nat) (due : List (Effect γ κ)) : Prop where
  live : (∃ id job, Crew w id (.grace job (some (state w).drainEpoch))) ∨
    ∃ grace, (state w).grace = some grace ∧ drains due = [some (grace, (state w).drainEpoch)]
  timed : ∀ id job, Crew w id (.grace job (some (state w).drainEpoch)) →
    drains due = [] ∧ Timed w since job
  begun : drains due ≠ [] → now w = since

/-- `v` is a later world than `w`.  In the same epoch the same grace period is under way, in another
one a later one. -/
structure Later (w : W) (since : Nat) (v : W) (begun : Nat) : Prop where
  now : HasExecutor.now w ≤ HasExecutor.now v
  epoch : (state w).drainEpoch ≤ (state v).drainEpoch
  same : (state v).drainEpoch = (state w).drainEpoch → begun = since
  other : (state v).drainEpoch ≠ (state w).drainEpoch →
    HasExecutor.now w ≤ begun ∧ begun ≤ HasExecutor.now v

theorem Later.of_epoch {v w : W} {since : Nat} (now : HasExecutor.now w ≤ HasExecutor.now v)
    (epoch : (state v).drainEpoch = (state w).drainEpoch) : Later w since v since :=
  ⟨now, Nat.le_of_eq epoch.symm, fun _ => rfl, absurd epoch⟩

theorem Later.refl (w : W) (since : Nat) : Later w since w since := .of_epoch (Nat.le_refl _) rfl

theorem Later.trans {u v w : W} {first second third : Nat} (h₁ : Later w first v second)
    (h₂ : Later v second u third) : Later w first u third where
  now := Nat.le_trans h₁.now h₂.now
  epoch := Nat.le_trans h₁.epoch h₂.epoch
  same heq := by
    have hfirst := h₁.epoch
    have hsecond := h₂.epoch
    exact (h₂.same (by omega)).trans (h₁.same (by omega))
  other ne := by
    have hfirst := h₁.now
    have hsecond := h₂.now
    by_cases hlast : (state u).drainEpoch = (state v).drainEpoch
    · obtain ⟨hlow, hhigh⟩ := h₁.other (by rwa [hlast] at ne)
      rw [h₂.same hlast]
      exact ⟨hlow, Nat.le_trans hhigh hsecond⟩
    · obtain ⟨hlow, hhigh⟩ := h₂.other hlast
      exact ⟨Nat.le_trans hfirst hlow, hhigh⟩

section Frame

variable {skip : Option TaskId} {w v : W} {since : Nat} {due rest : List (Effect γ κ)}

theorem Timed.congr {job : Debouncer.Job} (h : Timed w since job)
    (grace : (state v).grace = (state w).grace) (now : now v = now w)
    (generation : (timer v).generation = (timer w).generation)
    (discarded : (timer v).discarded = (timer w).discarded) : Timed v since job where
  number := by rw [generation, h.number]
  kept := by
    rw [discarded]
    exact h.kept
  wait := by rw [grace, h.wait]
  course := by
    rw [now]
    exact h.course

theorem Frame.timed (frame : Frame skip w v) {job : Debouncer.Job}
    (h : Timed w since job) : Timed v since job :=
  h.congr (by rw [frame.state]) frame.now (by rw [frame.timer]) (by rw [frame.timer])

theorem Window.frame (h : Window w since due) (frame : Frame skip w v)
    (quiet : drains rest = drains due)
    (kept : ∀ id job, skip = some id → Crew w id (.grace job (some (state w).drainEpoch)) →
      ∃ job, Crew v id (.grace job (some (state w).drainEpoch)))
    (timed : ∀ id job, skip = some id → Crew v id (.grace job (some (state w).drainEpoch)) →
      drains due = [] ∧ Timed v since job) : Window v since rest where
  live := by
    rw [frame.state, quiet]
    refine h.live.imp_left ?_
    rintro ⟨id, job, hcrew⟩
    by_cases hskip : skip = some id
    · exact ⟨id, kept id job hskip hcrew⟩
    · exact ⟨id, job, (frame.crew_iff hskip).mpr hcrew⟩
  timed id job crew := by
    rw [frame.state] at crew
    rw [quiet]
    by_cases hskip : skip = some id
    · exact timed id job hskip crew
    · obtain ⟨hdrains, htimed⟩ := h.timed id job ((frame.crew_iff hskip).mp crew)
      exact ⟨hdrains, frame.timed htimed⟩
  begun drains := by
    rw [quiet] at drains
    rw [frame.now]
    exact h.begun drains

theorem Window.aside (h : Window w since due) (frame : Frame none w v)
    (quiet : drains rest = drains due) : Window v since rest :=
  h.frame frame quiet nofun nofun

structure Provided [Inhabited κ] (w : W) (since : Nat) (due : List (Effect γ κ))
    (hand : Option Mark) : Prop extends Linked w due hand where
  window : (state w).phase = .draining → Window w since due

theorem Provided.aside [Inhabited κ] {hand : Option Mark} (h : Provided w since due hand)
    (frame : Frame none w v) : Provided v since due hand := by
  refine ⟨h.toLinked.aside frame, fun draining => (h.window ?_).aside frame rfl⟩
  rwa [frame.state] at draining

end Frame

/-! ## Effects -/

section Effects

variable [Inhabited κ] [LawfulHosting W] {w v : W} {since : Nat} {hand : Option Mark}
  {e : Effect γ κ} {due rest : List (Effect γ κ)}

theorem Window.started {m : Mark} {t : Task η} (h : Window w since due)
    (numbered : (executor w).Numbered) (fresh : t.mark? = some m)
    (quiet : drains rest = drains due) : Window (spawn w (Hosting.toTask W t)) since rest := by
  refine h.frame (frame_spawn w _) quiet ?_ ?_
  · intro id job hid hold
    exact absurd hold (absent_spawn numbered id _ hid)
  · intro id job hid hu
    rw [← unique_spawn numbered hid hu] at fresh
    cases fresh

theorem Window.scheduled [DecidableEq σ] (h : Window w since (e :: rest))
    (linked : Linked w (e :: rest) hand) {delay : Span} {epoch : Option Nat}
    (drain : e.drain? = some (epoch.map fun k => (delay, k))) :
    Window (scheduleJob w delay epoch) since rest := by
  have hdrains : drains (e :: rest) = epoch.map (fun k => (delay, k)) :: drains rest := by
    rw [drains_cons, drain]
    rfl
  -- Once the period has its job, nothing is due to the debouncer any more; here `e` is.
  have loose (id : TaskId) (job : Debouncer.Job) :
      ¬Crew w id (.grace job (some (state w).drainEpoch)) := by
    intro crew
    have hquiet := (h.timed id job crew).1
    rw [hdrains] at hquiet
    cases hquiet
  rcases h.live with ⟨id, job, hold⟩ | ⟨grace, hgrace, hdue⟩
  · exact absurd hold (loose id job)
  rw [hdrains, List.cons.injEq] at hdue
  obtain ⟨hthis, hrest⟩ := hdue
  cases epoch with
  | none => cases hthis
  | some k =>
      cases hthis
      have hbegan : now (cleared w delay) = since := by
        rw [now_cleared]
        exact h.begun (by rw [hdrains]; nofun)
      have hnumbered := (linked.cleared delay).numbered
      have hjob := linked.orderly.job (now w) delay
      have hkept := linked.orderly.not_discarded (now w) delay
      rw [← timer_cleared] at hjob hkept
      have frame := frame_spawn (cleared w delay) (Hosting.toTask W
        (.grace ((timer w).schedule (now w) delay).2 (some (state w).drainEpoch)))
      have hnew := crew_spawn hnumbered
        (.grace ((timer w).schedule (now w) delay).2 (some (state w).drainEpoch))
      rw [scheduleJob_eq]
      refine ⟨.inl ⟨(executor (cleared w delay)).nextTask,
        ((timer w).schedule (now w) delay).2, ?_⟩, fun id job ht => ⟨hrest, ?_⟩,
        fun hmore => absurd hrest hmore⟩
      · rw [frame.state, state_cleared]
        exact hnew
      · rw [frame.state, state_cleared] at ht
        by_cases hid : some (executor (cleared w delay)).nextTask = some id
        · cases unique_spawn hnumbered hid ht
          apply frame.timed
          rw [hjob] at hkept ⊢
          refine ⟨rfl, hkept, ?_, .inl ⟨rfl, hbegan⟩⟩
          rw [state_cleared, hgrace]
        · exact absurd ((crew_cleared w delay).mp ((frame.crew_iff hid).mp ht)) (loose id job)

theorem Window.perform [DecidableEq σ] (h : Window w since (e :: rest))
    (linked : Linked w (e :: rest) hand) : Window (perform w e) since rest := by
  cases e with
  | replay cache c => exact h.aside (LawfulHosting.consumer w _) rfl
  | offer c e => exact h.aside (LawfulHosting.consumer w _) rfl
  | close c => exact h.aside (LawfulHosting.consumer w _) rfl
  | part c => exact h.aside (LawfulHosting.consumer w _) rfl
  | publish event => exact h.aside (LawfulHosting.publish w event) rfl
  | report e => exact h.aside (LawfulHosting.report w _) rfl
  | signal a => exact h.aside (frame_signal w _) rfl
  | startActivation i => exact h.started (t := .activation i none) linked.numbered rfl rfl
  | startTeardown j => exact h.started (t := .teardown j none) linked.numbered rfl rfl
  | callActivate i => exact h.aside (.refl w) rfl
  | callDeactivate j => exact h.aside (.refl w) rfl
  | beginDrain grace epoch => exact h.scheduled linked rfl
  | endDrain => exact h.scheduled linked rfl

theorem Window.step {input : Input γ κ} (linked : Linked w [] hand)
    (window : (state (Hosting.step w input).1).phase = .draining →
      (state w).phase = .draining → Window w since [])
    (draining : (state (Hosting.step w input).1).phase = .draining) :
    Window (Hosting.step w input).1
      (if (state (Hosting.step w input).1).drainEpoch = (state w).drainEpoch then since else now w)
      (Hosting.step w input).2 := by
  obtain ⟨accepts, hmove⟩ := step_move w input
  have hexecutor := LawfulHosting.executor_step w input
  have htimer := LawfulHosting.timer_step w input
  generalize (Hosting.step w input).1 = v at hmove hexecutor htimer draining window ⊢
  generalize (Hosting.step w input).2 = effects at hmove ⊢
  have hnow : now v = now w := by rw [now, now, hexecutor]
  cases hmove.drains with
  | kept phase same quiet =>
      rw [if_pos same]
      obtain ⟨hlive, htimed, _⟩ := window draining (by rwa [phase] at draining)
      refine ⟨.inl ?_, fun id job crew => ⟨quiet, ?_⟩, absurd quiet⟩
      · rcases hlive with ⟨id, job, hcrew⟩ | ⟨_, _, hdue⟩
        · rw [same]
          exact ⟨id, job, (crew_congr hexecutor).mpr hcrew⟩
        · cases hdue
      · rw [crew_congr hexecutor, same] at crew
        obtain ⟨_, hjob⟩ := htimed id job crew
        exact hjob.congr hmove.grace_eq hnow (by rw [htimer]) (by rw [htimer])
  | begun grace patient was _ more quiet =>
      rw [if_neg (by omega)]
      refine ⟨.inr ⟨grace, ?_, ?_⟩, fun id job crew => ?_, fun _ => hnow⟩
      · rw [hmove.grace_eq, patient]
      · rw [quiet, more]
      · rw [crew_congr hexecutor, more] at crew
        exact absurd (linked.epochs id job _ crew) (Nat.not_succ_le_self _)
  | ceased now => exact absurd draining now

theorem Provided.performed [DecidableEq σ] {effects : List (Effect γ κ)}
    (h : Provided w since effects hand) :
    Provided (effects.foldl Hosting.perform w) since [] hand := by
  induction effects generalizing w with
  | nil => exact h
  | cons e rest ih =>
      refine ih ⟨h.toLinked.perform, fun draining => (h.window ?_).perform h.toLinked⟩
      rwa [(Settles.perform w e).state] at draining

theorem Linked.input [DecidableEq σ] {next : Option Mark} (h : Linked w [] hand)
    {input : Input γ κ}
    (window : (state (Hosting.input w input)).phase = .draining →
      (state w).phase = .draining → Window w since [])
    (admitted : (state w).admits input = true)
    (called : ∀ m ∈ calls (Hosting.step w input).2, next = some m)
    (released : ∀ m, hand = some m → next = some m ∨
      ¬(state (Hosting.input w input)).Outstanding m) :
    ∃ begun, Provided (Hosting.input w input) begun [] next ∧
      Later w since (Hosting.input w input) begun := by
  rw [state_input] at released window
  have hstep := h.step admitted called released
  have hprovided : Provided _ _ _ _ := ⟨hstep, Window.step h window⟩
  have hnow := now_input w input
  refine ⟨_, hprovided.performed, ?_, ?_, ?_, ?_⟩
  · exact Nat.le_of_eq hnow.symm
  · obtain ⟨accepts, hmove⟩ := step_move w input
    rw [state_input]
    exact hmove.drains.epoch_le
  · rw [state_input]
    exact fun same => if_pos same
  · rw [state_input]
    intro other
    rw [if_neg other]
    exact ⟨Nat.le_refl _, Nat.le_of_eq hnow.symm⟩

end Effects

end Lifecycle.Gate.Hosting
