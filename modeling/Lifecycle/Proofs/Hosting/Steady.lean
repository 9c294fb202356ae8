import Lifecycle.Proofs.Hosting.Timer

/-!
# Every run keeps the gate provided for

Whatever happens to a gate that is provided for leads to a place of rest at which it is provided for
again.
-/

namespace Lifecycle.Gate

theorem Task.holds_of_mark {η : Type} {t : Task η} (hook : t.mark?.isSome = true) :
    Hosting.Task.holds t = true := by
  cases t with
  | grace job epoch => cases hook
  | _ => rfl

namespace Hosting

open HasExecutor
open State (Paced Manned Move Path)

/-! ## Dropping the gate -/

section Reap

variable {W σ τ γ κ η : Type} [Hosting W σ τ γ κ η] {w : W} {since : Nat}

theorem mem_tasks_of_job {id : TaskId} {t : Task η} (job : job? w id = some t) :
    t ∈ (executor w).tasks.filterMap fun p => Hosting.ofTask? W p.2 := by
  obtain ⟨program, hget, htask⟩ := Option.bind_eq_some_iff.mp job
  obtain ⟨_, _, htasks, _⟩ := List.lookup_eq_some_iff.mp hget
  refine List.mem_filterMap.mpr ⟨(id, program), ?_, htask⟩
  rw [htasks]
  exact List.mem_append_right _ List.mem_cons_self

variable [Inhabited κ]

theorem Steady.unheld (h : Steady w since) (empty : (state w).roster.isEmpty = true)
    (free : ∀ id t, job? w id = some t → Task.holds t = false) : (state w).isHeld = false := by
  apply State.isHeld_eq_false empty
  · intro draining
    rcases (h.window draining).live with ⟨id, job, hcrew⟩ | ⟨_, _, hdue⟩
    · cases free id _ hcrew.1
    · cases hdue
  · intro m outstanding
    rcases h.staffed m outstanding nofun with ⟨id, t, hcrew, hmark⟩ | hstart
    · have hholds := Task.holds_of_mark (by rw [hmark]; rfl)
      rw [free id t hcrew.1] at hholds
      cases hholds
    · cases hstart

theorem Steady.reap [DecidableEq σ] [LawfulHosting W] (h : Steady w since)
    (leased : isHeld w = false → (state w).roster.isEmpty = true) :
    Arrives w since [] (reap w) := by
  rw [Hosting.reap]
  split
  · exact ⟨since, h, .refl w since⟩
  · rename_i hfree
    simp only [Bool.or_eq_true, not_or, Bool.not_eq_true, List.any_eq_false] at hfree
    obtain ⟨⟨_, hleft⟩, hidle⟩ := hfree
    have hunheld := h.unheld (leased hleft) fun id t hjob => hidle t (mem_tasks_of_job hjob)
    obtain ⟨n, hpaced⟩ := h.paced
    have hinactive := hpaced.inactive_of_not_held h.manned.active hunheld
    obtain ⟨accepts, hmove⟩ := step_move w .drop
    have hcalls := hmove.calls_eq_nil rfl
    have hphase : (state (input w .drop)).phase = .inactive := by
      rw [state_input]
      generalize (step w .drop).2 = effects at hmove
      generalize state (step w .drop).1 = t at hmove ⊢
      cases hmove with
      | refuse _ ignored => cases ignored
      | drop => exact hinactive
    have hadmitted : (state w).admits .drop = true := by
      rw [State.admits, hunheld]
      rfl
    obtain ⟨begun, hdropped, hreaches⟩ : ∃ begun, Provided (input w .drop) begun [] none ∧
        Reaches w since [] (input w .drop) begun :=
      h.toLinked.reaches none (fun _ => h.window)
        (fun accepts => .errand accepts rfl hadmitted (.done _)) hadmitted
        (by rw [hcalls]; exact fun _ h => absurd h List.not_mem_nil) (by rintro _ ⟨⟩)
    have settles := Settles.discardJob (input w .drop)
    refine ⟨begun, ⟨⟨hdropped.toLinked.discarded, fun draining => ?_⟩, fun id t holds => ?_⟩,
      hreaches.then_done (.of_eq settles.state settles.now)⟩
    · rw [settles.state, hphase] at draining
      cases draining
    · rw [settles.holds hdropped.numbered, holds_input h.numbered] at holds
      exact h.settled id t holds

end Reap

/-! ## The clock -/

section Clock

variable {W σ τ γ κ η : Type} [Hosting W σ τ γ κ η] {w : W} {since target : Nat} {id : TaskId}
  {job : Debouncer.Job}

theorem Timed.in_time (h : Timed w since job) (ticks : Ticks w id job)
    (idle : (executor w).ready = []) (first : ∀ t ∈ (executor w).timers, target ≤ t.deadline) :
    job.deadline = some (since + job.wait.ceilMs) ∧ since ≤ now w ∧
      target ≤ since + job.wait.ceilMs := by
  rcases ticks with hready | ⟨deadline, hdeadline, _, harmed⟩
  · rw [idle] at hready
    cases hready
  · have hfirst : target ≤ deadline := first _ harmed
    rcases h.course with ⟨hnone, _⟩ | ⟨hsome, hlow, _⟩
    · rw [hdeadline] at hnone
      cases hnone
    · rw [hdeadline, Option.some.injEq] at hsome
      exact ⟨by rw [hdeadline, hsome], hlow, by omega⟩

variable [Inhabited κ] [LawfulHosting W]

theorem now_moveClock (w : W) (target : Nat) : now (update w (·.moveClock target)) = target := by
  obtain ⟨more, hmore⟩ := (executor w).moveClock_eq target
  rw [now, executor_update, hmore]

theorem crew_moveClock {t : Task η} : Crew (update w (·.moveClock target)) id t ↔ Crew w id t := by
  obtain ⟨more, hmore⟩ := (executor w).moveClock_eq target
  rw [Crew, Crew, job?_update w (by rw [hmore]), executor_update, hmore]

theorem Tended.moveClock {t : Task η} {due : List (Effect γ κ)} (h : Tended w due id t)
    (crew : Crew w id t) : Tended (update w (·.moveClock target)) due id t := by
  obtain ⟨more, hmore⟩ := (executor w).moveClock_eq target
  have hready (hid : id ∈ (executor w).ready) :
      id ∈ (executor (update w (·.moveClock target))).ready := by
    rw [executor_update, hmore]
    exact List.mem_append_left _ hid
  refine h.imp (fun m ha => ?_) fun job ht => ?_
  · rcases ha with hid | ⟨a, hwaits, hcoming⟩
    · exact .inl (hready hid)
    · rw [Awakes, executor_update, state_update, hmore]
      exact .inr ⟨a, hwaits, hcoming⟩
  · rcases ht with hid | ⟨deadline, hdeadline, _, harmed⟩
    · exact .inl (hready hid)
    · have hpresent : ((executor w).task? id).isSome = true := task?_isSome (by rw [crew.1]; rfl)
      rw [Ticks, now_moveClock, executor_update]
      rcases Executor.mem_timers_moveClock hpresent crew.2 harmed with hkept | hrung
      · exact .inr ⟨deadline, hdeadline, hkept⟩
      · exact .inl hrung

theorem Linked.moveClock {due : List (Effect γ κ)} {hand : Option Mark} (h : Linked w due hand) :
    Linked (update w (·.moveClock target)) due hand := by
  obtain ⟨more, hmore⟩ := (executor w).moveClock_eq target
  have hstate := state_update w (·.moveClock target)
  refine ⟨?_, ?_, ?_, ?_, ?_, fun id t crew => ?_, ?_, ?_⟩
  · rw [hstate]
    exact h.paced
  · rw [hstate]
    exact h.manned
  · rw [executor_update, hmore]
    exact ⟨h.numbered.tasks, h.numbered.running⟩
  · rw [timer_update]
    exact h.orderly
  · rw [hstate]
    simpa only [crew_moveClock] using h.staffed
  · have hcrew := crew_moveClock.mp crew
    exact (h.tended id t hcrew).moveClock hcrew
  · rw [hstate]
    simpa only [crew_moveClock] using h.epochs
  · rw [hstate]
    exact h.begins

theorem Steady.clock (h : Steady w since) (idle : (executor w).ready = []) (later : now w ≤ target)
    (first : ∀ t ∈ (executor w).timers, target ≤ t.deadline) :
    Arrives w since [] (update w (·.moveClock target)) := by
  have hstate := state_update w (·.moveClock target)
  have htimer := timer_update w (·.moveClock target)
  have hnow := now_moveClock w target
  refine ⟨since, ⟨⟨h.toLinked.moveClock, fun draining => ?_⟩, fun id t holds => ?_⟩, ?_⟩
  · rw [hstate] at draining
    obtain ⟨hlive, htimed, _⟩ := h.window draining
    refine ⟨?_, fun id job crew => ⟨rfl, ?_⟩, nofun⟩
    · rw [hstate]
      simpa only [crew_moveClock] using hlive
    · rw [hstate, crew_moveClock] at crew
      obtain ⟨_, hjob⟩ := htimed id job crew
      obtain ⟨hdeadline, hlow, hhigh⟩ := hjob.in_time (h.tended id _ crew) idle first
      refine ⟨by rw [htimer, hjob.number], by rw [htimer]; exact hjob.kept,
        by rw [hstate, hjob.wait], .inr ⟨hdeadline, ?_, ?_⟩⟩
      · rw [hnow]
        exact Nat.le_trans hlow later
      · rw [hnow]
        exact hhigh
  · obtain ⟨more, hmore⟩ := (executor w).moveClock_eq target
    rw [Holds, job?_update w (by rw [hmore]), executor_update, hmore] at holds
    exact h.settled id t holds
  · refine ⟨.of_epoch ?_ (by rw [hstate]), ?_⟩
    · rw [hnow]
      exact later
    · rw [hstate]
      exact .done _

end Clock

/-! ## Whole runs -/

section Run

variable {W σ τ γ κ η : Type} [Inhabited κ] [Hooked W σ τ γ κ η] {v w : W} {since : Nat}
  {asks : List (Input γ κ)}

theorem Fresh.steady {settings : RelaySettings} (h : Fresh settings w) : Steady w (now w) := by
  have hcrew {id : TaskId} {t : Task η} : ¬Crew w id t := by
    rintro ⟨hjob, _⟩
    rw [h.jobs] at hjob
    cases hjob
  obtain ⟨hpending, hdiscarded, hpatient⟩ := h.timer
  refine ⟨⟨⟨?_, ?_, h.numbered, ⟨hpatient, ?_, ?_⟩, ?_, ?_, ?_, nofun⟩, ?_⟩, ?_⟩
  · rw [h.state]
    exact ⟨0, State.paced_fresh _ _⟩
  · rw [h.state]
    exact State.manned_fresh _ _
  · rw [hpending]
    nofun
  · rw [hdiscarded]
    nofun
  · rw [h.state]
    intro m outstanding
    cases m <;> obtain ⟨x, hget, _⟩ := outstanding <;> cases hget
  · exact fun id t crew => absurd crew hcrew
  · exact fun id job epoch crew => absurd crew hcrew
  · rw [h.state]
    nofun
  · rintro id t ⟨hjob, _⟩
    rw [h.jobs] at hjob
    cases hjob

variable [DecidableEq σ] [LawfulHosting W]

theorem Steady.turn {id : TaskId} {t : Task η} {before after : List TaskId} (h : Steady w since)
    (ready : (executor w).ready = before ++ id :: after) (task : job? w id = some t)
    (behaves : Behaves (begin w id (before ++ after)) t asks) :
    Leads w since asks (finish (Hooked.turn (begin w id (before ++ after)) t).1 id
      (Hooked.turn (begin w id (before ++ after)) t).2) := by
  have frame := h.frame_begin ready task
  have holds := holds_begin task (before ++ after)
  have reaches : Reaches w since [] (begin w id (before ++ after)) since :=
    .of_eq frame.state frame.now
  cases t with
  | activation i place =>
      cases place with
      | none => exact (h.activation_turn ready task behaves).leads
      | some hook =>
          have hbegun := h.provided_begin ready task fun _ => nofun
          exact (hbegun.runActivation holds reaches behaves).leads
  | teardown j place =>
      cases place with
      | none => exact (h.teardown_turn ready task behaves).leads
      | some hook =>
          have hbegun := h.provided_begin ready task fun _ => nofun
          exact (hbegun.runTeardown holds reaches behaves).leads
  | grace job epoch =>
      cases behaves
      exact h.grace_turn ready task

theorem Steady.happens (h : Steady w since) (happens : Happens w asks v) :
    Leads w since asks v := by
  cases happens with
  | conduct conduct =>
      obtain ⟨begun, hprovided, hreaches, hholds⟩ := h.toProvided.conduct conduct
      have hsettled (id : TaskId) (t : Task η) : ¬Holds v id t :=
        mt (hholds id t).mp (h.settled id t)
      exact Arrives.leads ⟨begun, ⟨hprovided, hsettled⟩, hreaches⟩
  | turn ready task behaves => exact h.turn ready task behaves
  | reap leased => exact (h.reap leased).leads
  | clock idle later first => exact (h.clock idle later first).leads

theorem Steady.run (h : Steady w since) (run : Run w asks v) :
    ∃ begun, Steady v begun ∧ Later w since v begun := by
  induction run with
  | done => exact ⟨since, h, .refl w since⟩
  | next _ happens ih =>
      obtain ⟨mid, hmid, hfirst⟩ := ih
      obtain ⟨begun, hsteady, hlater, _⟩ := hmid.happens happens
      exact ⟨begun, hsteady, hfirst.trans hlater⟩

/-- What becomes of the gate in a run of its world becomes of it in a run of its own, in which users
ask for the same. -/
theorem Steady.exists_run (h : Steady w since) (run : Run w asks v) :
    ∃ occasions, (state w).orderly occasions = true ∧
      ((state w).run occasions).1 = state v ∧ State.requests occasions = asks := by
  induction run with
  | done => exact ⟨[], rfl, rfl, rfl⟩
  | next run happens ih =>
      obtain ⟨earlier, hearlier, hmiddle, hasks⟩ := ih
      obtain ⟨mid, hmid, _⟩ := h.run run
      obtain ⟨_, _, _, hproceeds⟩ := hmid.happens happens
      obtain ⟨later, hlater, hlast, hmore⟩ := hproceeds.exists_run
      refine ⟨earlier ++ later, (State.orderly_append _ _ _).mpr ⟨hearlier, ?_⟩, ?_, ?_⟩
      · rw [hmiddle]
        exact hlater
      · rw [State.run_append, hmiddle, hlast]
      · rw [State.requests_append, hasks, hmore]

end Run

end Hosting

end Lifecycle.Gate
