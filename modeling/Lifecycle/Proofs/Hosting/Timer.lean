import Lifecycle.Proofs.Hosting.Turn

/-!
# The end of a wait

A job of the debouncer sleeps until its wait is over.  Only then does it tell the gate that the
grace period is over, and only for the grace period that it was scheduled for.
-/

namespace Lifecycle

namespace Debouncer

variable {d : Debouncer} {now : Nat} {job : Job}

inductive Polled (d : Debouncer) (now : Nat) (job : Job) : Turn → Prop
  | dropped (loose : job.number ∈ d.discarded ∨ job.number ≠ d.generation) :
      Polled d now job .dropped
  | sleep (deadline : Nat) (later : now < deadline)
      (course : job.deadline = none ∧ deadline = now + job.wait.ceilMs ∨
        job.deadline = some deadline) : Polled d now job (.sleep deadline)
  | start
      (ended : job.wait.ceilMs = 0 ∨ ∃ deadline, job.deadline = some deadline ∧ deadline ≤ now) :
      Polled d now job (.start { d with pending := none, lastStart := some now })

theorem polled_tryStart
    (ended : job.wait.ceilMs = 0 ∨ ∃ deadline, job.deadline = some deadline ∧ deadline ≤ now) :
    Polled d now job (d.tryStart now job) := by
  unfold tryStart
  split
  · rename_i loose
    rw [isDiscarded, Bool.or_eq_true, List.contains_iff_mem, bne_iff_ne] at loose
    exact .dropped (loose.imp_right Ne.symm)
  · exact .start ended

theorem ceilMs_eq_zero_iff_isZero (wait : Span) : wait.ceilMs = 0 ↔ wait.isZero = true := by
  rw [Span.ceilMs_eq_zero_iff, Span.isZero, beq_iff_eq, Span.zero]
  cases wait
  exact Span.mk.injEq _ _ ▸ Iff.rfl

theorem polled (d : Debouncer) (now : Nat) (job : Job) : Polled d now job (d.poll now job) := by
  unfold poll
  split
  · rename_i hzero
    exact polled_tryStart (.inl ((ceilMs_eq_zero_iff_isZero _).mpr hzero))
  · rename_i hwait
    split
    · rename_i hdiscarded
      rw [isDiscarded, List.contains_iff_mem] at hdiscarded
      exact .dropped (.inl hdiscarded)
    · cases hdeadline : job.deadline with
      | none =>
          apply Polled.sleep _ _ (.inl ⟨hdeadline, rfl⟩)
          have hpositive := mt (ceilMs_eq_zero_iff_isZero job.wait).mp hwait
          omega
      | some deadline =>
          simp only
          split
          · rename_i hlater
            exact .sleep deadline hlater (.inr hdeadline)
          · rename_i hover
            exact polled_tryStart (.inr ⟨deadline, hdeadline, Nat.le_of_not_lt hover⟩)

end Debouncer

namespace Gate.Hosting

open HasExecutor
open State (Paced Manned Move Path)

section Proceeds

variable {W σ τ γ κ η : Type} [Inhabited κ] [Hosting W σ τ γ κ η] {v w : W} {since : Nat}
  {asks : List (Input γ κ)}

/-- What happens to the gate between two places of rest.  A grace period ends when it has lasted as
long as the settings say. -/
inductive Proceeds (w : W) (since : Nat) (asks : List (Input γ κ)) (v : W) : Prop
  | path (path : Path (state w) asks (state v))
  | elapses (accepts : γ → Bool) (epoch : Nat)
      (step : state v = ((state w).step accepts (.drainElapsed epoch)).1)
      (idle : asks = []) (now : now v = now w)
      (ended : (state w).phase = .draining → (state w).drainEpoch = epoch →
        ∃ grace, (state w).grace = some grace ∧ HasExecutor.now w = since + grace.ceilMs)

theorem Proceeds.exists_run (h : Proceeds w since asks v) :
    ∃ occasions, (state w).orderly occasions = true ∧
      ((state w).run occasions).1 = state v ∧ State.requests occasions = asks := by
  cases h with
  | path path => exact path.exists_run
  | elapses accepts epoch step idle =>
      exact ⟨[⟨.drainElapsed epoch, accepts⟩], rfl, step.symm, idle.symm⟩

def Leads (w : W) (since : Nat) (asks : List (Input γ κ)) (v : W) : Prop :=
  ∃ begun, Steady v begun ∧ Later w since v begun ∧ Proceeds w since asks v

theorem Arrives.leads (h : Arrives w since asks v) : Leads w since asks v := by
  obtain ⟨begun, hsteady, hreaches⟩ := h
  exact ⟨begun, hsteady, hreaches.toLater, .path hreaches.path⟩

end Proceeds

section Timed

variable {W σ τ γ κ η : Type} [Hosting W σ τ γ κ η] {w : W} {since deadline : Nat}
  {job : Debouncer.Job} {timer' : Debouncer}

theorem Timed.asleep (h : Timed w since job)
    (polled : Debouncer.Polled (timer w) (now w) job (.sleep deadline)) :
    Timed w since { job with deadline := some deadline } where
  number := h.number
  kept := h.kept
  wait := h.wait
  course := by
    right
    cases polled with
    | sleep _ later course =>
        rcases course with ⟨hnone, hdeadline⟩ | hsome
        · rcases h.course with ⟨_, hnow⟩ | ⟨hsome, _⟩
          · exact ⟨by rw [hdeadline, hnow], by omega, by omega⟩
          · rw [hnone] at hsome
            cases hsome
        · rcases h.course with ⟨hnone, _⟩ | ⟨hsame, hcourse⟩
          · rw [hsome] at hnone
            cases hnone
          · exact ⟨by rw [← hsome, hsame], hcourse⟩

theorem Timed.due (h : Timed w since job)
    (polled : Debouncer.Polled (timer w) (now w) job (.start timer')) :
    now w = since + job.wait.ceilMs := by
  cases polled with
  | start ended =>
      rcases h.course with ⟨hnone, hnow⟩ | ⟨hsome, hlow, hhigh⟩
      · rcases ended with hzero | ⟨deadline, hsome, _⟩
        · omega
        · rw [hnone] at hsome
          cases hsome
      · rcases ended with hzero | ⟨deadline, hsame, hdue⟩
        · omega
        · rw [hsome, Option.some.injEq] at hsame
          omega

theorem Timed.kept_on (h : Timed w since job) :
    ¬Debouncer.Polled (timer w) (now w) job .dropped := by
  rintro (⟨hdiscarded | houtdated⟩)
  · exact h.kept hdiscarded
  · exact houtdated h.number

theorem Timed.starts (h : Timed w since job) (late : now w = since + job.wait.ceilMs) :
    ∃ timer', (timer w).poll (now w) job = .start timer' := by
  have hpolled := Debouncer.polled (timer w) (now w) job
  generalize (timer w).poll (now w) job = result at hpolled ⊢
  cases result with
  | dropped => exact absurd hpolled h.kept_on
  | sleep deadline =>
      have hdeadline := (h.asleep hpolled).course
      cases hpolled with
      | sleep _ later =>
          rcases hdeadline with ⟨hnone, _⟩ | ⟨hsome, _⟩
          · cases hnone
          · rw [Option.some.injEq] at hsome
            have hsame : deadline = since + job.wait.ceilMs := hsome
            omega
  | start timer' => exact ⟨timer', rfl⟩

end Timed

section Freed

variable {W σ τ γ κ η : Type} [Inhabited κ] [Hosting W σ τ γ κ η] [LawfulHosting W] {w : W}
  {since : Nat} {hand : Option Mark} {due : List (Effect γ κ)}

theorem Provided.freed (h : Provided w since due hand) (lastStart : Option Nat) :
    Provided (withTimer w { timer w with pending := none, lastStart }) since due hand := by
  have hexecutor := LawfulHosting.executor_withTimer w { timer w with pending := none, lastStart }
  have htimer := LawfulHosting.timer_withTimer w { timer w with pending := none, lastStart }
  have settles := Settles.withTimer w { timer w with pending := none, lastStart }
  refine ⟨h.toLinked.retimed ⟨h.orderly.patient, nofun, h.orderly.discarded⟩, fun draining => ?_⟩
  rw [settles.state] at draining
  obtain ⟨hlive, htimed, hbegun⟩ := h.window draining
  refine ⟨?_, ?_, ?_⟩
  · rw [settles.state]
    simpa only [crew_congr hexecutor] using hlive
  · intro id job crew
    rw [settles.state, crew_congr hexecutor] at crew
    obtain ⟨hdrains, hjob⟩ := htimed id job crew
    exact ⟨hdrains, hjob.congr (by rw [settles.state]) settles.now (by rw [htimer])
      (by rw [htimer])⟩
  · rw [settles.now]
    exact hbegun

end Freed

/-! ## The turn of a job -/

section Turn

variable {W σ τ γ κ η : Type} [Inhabited κ] [Hosting W σ τ γ κ η] {v w : W} {since : Nat}
  {before after : List TaskId} {id : TaskId} {job : Debouncer.Job} {epoch : Option Nat}

theorem Steady.timed (h : Steady w since) (task : job? w id = some (.grace job epoch))
    (draining : (state w).phase = .draining) (own : epoch = some (state w).drainEpoch) :
    Timed w since job := by
  subst own
  exact ((h.window draining).timed id job (h.crew task)).2

variable [DecidableEq σ] [LawfulHosting W]

theorem Steady.dropped (h : Steady w since) (ready : (executor w).ready = before ++ id :: after)
    (task : job? w id = some (.grace job epoch))
    (polled : Debouncer.Polled (timer w) (now w) job .dropped) :
    Leads w since [] (finish (begin w id (before ++ after)) id .ended) := by
  have frame := h.frame_begin ready task
  have hbegun := h.provided_begin ready task fun draining job' same => by
    cases same
    exact (h.timed task draining rfl).kept_on polled
  exact (hbegun.arrives_retired (holds_begin task _) (.of_eq frame.state frame.now) nofun).leads

theorem Steady.asleep (h : Steady w since) (ready : (executor w).ready = before ++ id :: after)
    (task : job? w id = some (.grace job epoch)) {deadline : Nat} (signals : List σ)
    (polled : Debouncer.Polled (timer w) (now w) job (.sleep deadline)) :
    Leads w since [] (finish (begin w id (before ++ after)) id (.waiting
      (Hosting.toTask W (.grace { job with deadline := some deadline } epoch)) signals
      (some deadline))) := by
  have holds := holds_begin task (before ++ after)
  have first := h.frame_begin ready task
  have frame := first.trans (frame_suspend holds
    (Hosting.toTask W (.grace { job with deadline := some deadline } epoch)) signals
    (some deadline))
  have hcrew {u : Task η} : Crew _ id u ↔ u = _ :=
    crew_suspend holds (.grace { job with deadline := some deadline } epoch) signals (some deadline)
  refine ⟨since, ⟨⟨(h.linked_begin ready task).suspended holds rfl ?_ ?_, fun draining => ?_⟩,
    fun other u => idle_suspend _ id other⟩, ?_, ?_⟩
  · cases polled with
    | sleep _ later =>
        refine .inr ⟨deadline, rfl, ?_, ?_⟩
        · rw [frame.now]
          exact later
        · rw [finish, executor_update]
          exact Executor.mem_timers_suspend _ _ _
  · rintro job' k hu
    cases hu
    rw [first.state]
    exact h.epochs id job k (h.crew task)
  · rw [frame.state] at draining
    refine (h.window draining).frame frame rfl ?_ ?_
    · rintro k job' hk hu
      cases hk
      cases Option.some.inj (hu.1.symm.trans task)
      exact ⟨_, hcrew.mpr rfl⟩
    · rintro k job' hk hu
      cases hk
      cases hcrew.mp hu
      exact ⟨rfl, frame.timed ((h.timed task draining rfl).asleep polled)⟩
  · exact .of_epoch (Nat.le_of_eq frame.now.symm) (by rw [frame.state])
  · refine .path ?_
    rw [frame.state]
    exact .done _

theorem Steady.elapses {k : Nat} {lastStart : Option Nat} (h : Steady w since)
    (ready : (executor w).ready = before ++ id :: after)
    (task : job? w id = some (.grace job (some k)))
    (polled : Debouncer.Polled (timer w) (now w) job
      (.start { timer w with pending := none, lastStart })) :
    Leads w since [] (finish (input (withTimer (begin w id (before ++ after))
      { timer (begin w id (before ++ after)) with pending := none, lastStart }) (.drainElapsed k))
        id .ended) := by
  have frame := h.frame_begin ready task
  have hbegun := h.linked_begin ready task
  have holds := holds_begin task (before ++ after)
  -- The job may have been that of the period under way.  Then no period is under way afterwards.
  have hwindow (other : (state w).drainEpoch ≠ k) :=
    h.provided_begin ready task fun _ job' same => by
      cases same
      exact other rfl
  generalize begin w id (before ++ after) = v at frame hbegun holds hwindow ⊢
  have settles := Settles.withTimer v { timer v with pending := none, lastStart }
  have hlinked : Linked (withTimer v { timer v with pending := none, lastStart }) [] none :=
    hbegun.retimed ⟨hbegun.orderly.patient, nofun, hbegun.orderly.discarded⟩
  have hfreed (other : (state w).drainEpoch ≠ k) := (hwindow other).freed lastStart
  generalize withTimer v { timer v with pending := none, lastStart } = u at settles hlinked hfreed ⊢
  have hstate : state u = state w := settles.state.trans frame.state
  have hnow : now u = now w := settles.now.trans frame.now
  have hturn : Holds u id (.grace job (some k)) :=
    (settles.holds hbegun.numbered id _).mpr holds
  obtain ⟨accepts, hstep, heffects⟩ := LawfulHosting.step u (.drainElapsed k)
  have hmove := State.move_of_step hstep
  rw [← heffects] at hmove
  have hcalls := hmove.calls_eq_nil rfl
  rw [← state_input] at hmove hstep
  have hfinished := frame_retire ((holds_input hlinked.numbered (.drainElapsed k)).mpr hturn)
  obtain ⟨begun, hprovided, hlater⟩ : ∃ begun, Provided (input u (.drainElapsed k)) begun [] none ∧
      Later u since (input u (.drainElapsed k)) begun := by
    refine hlinked.input (fun after draining => (hfreed fun own => ?_).window draining) rfl
      (by rw [hcalls]; nofun) nofun
    have hover := hlinked.manned.elapsed hmove draining (by rw [hstate, own])
    rw [after] at hover
    cases hover
  have hgone : now (finish (input u (.drainElapsed k)) id .ended) = now w :=
    hfinished.now.trans ((now_input u _).trans hnow)
  refine ⟨begun, hprovided.retired ((holds_input hlinked.numbered _).mpr hturn) nofun, ?_, ?_⟩
  · refine ⟨Nat.le_of_eq hgone.symm, ?_, ?_, ?_⟩
    · rw [hfinished.state, ← hstate]
      exact hlater.epoch
    · rw [hfinished.state, ← hstate]
      exact hlater.same
    · rw [hfinished.state, ← hstate, hfinished.now, ← hnow]
      exact hlater.other
  · rw [hstate, ← hfinished.state] at hstep
    refine .elapses accepts k hstep rfl hgone fun draining own => ?_
    have htimed := h.timed task draining (by rw [own])
    exact ⟨job.wait, htimed.wait, htimed.due polled⟩

theorem Steady.idles (h : Steady w since) (ready : (executor w).ready = before ++ id :: after)
    (task : job? w id = some (.grace job none)) (lastStart : Option Nat) :
    Leads w since [] (finish (withTimer (begin w id (before ++ after))
      { timer (begin w id (before ++ after)) with pending := none, lastStart }) id .ended) := by
  have frame := h.frame_begin ready task
  have hbegun := h.provided_begin ready task fun _ => nofun
  have settles := Settles.withTimer (begin w id (before ++ after))
    { timer (begin w id (before ++ after)) with pending := none, lastStart }
  have holds := (settles.holds hbegun.numbered id _).mpr (holds_begin task (before ++ after))
  have reaches : Reaches w since [] _ since :=
    .of_eq (settles.state.trans frame.state) (settles.now.trans frame.now)
  exact ((hbegun.freed lastStart).arrives_retired holds reaches nofun).leads

end Turn

section Hooks

variable {W σ τ γ κ η : Type} [DecidableEq σ] [Inhabited κ] [Hooked W σ τ γ κ η]
  [LawfulHosting W] {w : W} {since : Nat} {before after : List TaskId} {id : TaskId}
  {job : Debouncer.Job} {epoch : Option Nat}

theorem Steady.grace_turn (h : Steady w since) (ready : (executor w).ready = before ++ id :: after)
    (task : job? w id = some (.grace job epoch)) :
    Leads w since []
      (finish (Hooked.turn (begin w id (before ++ after)) (.grace job epoch)).1 id
        (Hooked.turn (begin w id (before ++ after)) (.grace job epoch)).2) := by
  have frame := h.frame_begin ready task
  have hpolled := Debouncer.polled (timer w) (now w) job
  rw [Hooked.turn, frame.timer, frame.now]
  generalize (timer w).poll (now w) job = result at hpolled ⊢
  cases result with
  | dropped => exact h.dropped ready task hpolled
  | sleep deadline => exact h.asleep ready task _ hpolled
  | start timer' =>
      cases hpolled with
      | start ended =>
          rw [← frame.timer]
          cases epoch with
          | none => exact h.idles ready task _
          | some k => exact h.elapses ready task (.start ended)

end Hooks

end Gate.Hosting

end Lifecycle
