import Lifecycle.Proofs.Gate.Leases
import Lifecycle.Proofs.Hosting.Steady
import Lifecycle.Proofs.Hosting.Worlds

/-!
# A gate comes to rest without its producer stuck or leaked

When no task can run, no timer is armed and no hook is under way, nothing is left to do for a gate:
its producer runs for consumers or does not run at all, and every hook that was to be called is
over.  If all leases have been given up, it does not run.
-/

namespace Lifecycle.Gate

namespace State

variable {γ κ : Type} {s : State γ κ} {n : Nat}

/-- The calls of the starting hook that have ended, well or not. -/
def endedActivations (s : State γ κ) : Nat := s.sessions.countP (·.stage == .ended)

def endedDeactivations (s : State γ κ) : Nat := s.teardowns.countP (·.stage == .ended)

namespace Paced

theorem endedActivations_of_atRest (h : Paced s n) (rest : AtRest s) :
    s.endedActivations = s.sessions.length := by
  have hrow := h.row_of_atRest rest
  have hcount := h.count
  refine List.countP_eq_length.mpr fun session hmem => ?_
  obtain ⟨i, hget⟩ := List.mem_iff_getElem?.mp hmem
  obtain ⟨hi, rfl⟩ := h.lt_of_get hget
  rw [beq_iff_eq, sessionAt, Stage.reached_eq_ended_iff]
  split at hrow <;> simp_all <;> omega

theorem endedDeactivations_of_atRest (h : Paced s n) (rest : AtRest s) :
    s.endedDeactivations = s.teardowns.length := by
  have hrow := h.row_of_atRest rest
  refine List.countP_eq_length.mpr fun teardown hmem => ?_
  obtain ⟨j, hget⟩ := List.mem_iff_getElem?.mp hmem
  obtain ⟨hj, rfl⟩ := h.lt_of_get_teardown hget
  rw [beq_iff_eq, teardownAt, Stage.reached_eq_ended_iff]
  omega

theorem awaits_of_atRest (h : Paced s n) (rest : AtRest s) (m : Mark) : s.awaits m = [] := by
  have hrow := h.row_of_atRest rest
  have hcount := h.count
  rw [List.eq_nil_iff_forall_not_mem]
  intro a awaited
  cases m with
  | activate i =>
      obtain ⟨hi, j, hj, _, hn⟩ := (h.mem_activationAwaits a).mp awaited
      split at hcount <;> simp_all <;> omega
  | deactivate j =>
      obtain ⟨hj, ⟨_, hn⟩ | ⟨k, hk, _, hn⟩⟩ := (h.mem_teardownAwaits a).mp awaited
      · omega
      · omega
  | activated i => cases awaited
  | deactivated j => cases awaited

theorem not_activating_of_atRest (h : Paced s n) (rest : AtRest s) : s.phase ≠ .activating := by
  intro activating
  have hrow := h.row_of_atRest rest
  have hpace := h.pace
  rw [activating] at hrow hpace
  simp only [InPace, Phase.isLive, if_true] at hrow hpace
  omega

end Paced

end State

namespace Hosting

open HasExecutor

section Still

variable {W σ τ γ κ η : Type} [Hosting W σ τ γ κ η] {w : W} {since : Nat}

def Task.inHook : Task η → Bool
  | .activation _ hook | .teardown _ hook => hook.isSome
  | .grace _ _ => false

/-- No task can run, no timer is armed and no hook is suspended. -/
structure Still (w : W) : Prop where
  queue : (executor w).ready = []
  timers : (executor w).timers = []
  hooks : ∀ id t, job? w id = some t → Task.inHook t = false

theorem Still.not_ticks (h : Still w) (id : TaskId) (job : Debouncer.Job) : ¬Ticks w id job := by
  rintro (hready | ⟨_, _, _, harmed⟩)
  · rw [h.queue] at hready
    cases hready
  · rw [h.timers] at harmed
    cases harmed

structure Stalled (w : W) : Prop where
  queue : ∀ id t, job? w id = some t → id ∉ (executor w).ready
  hooks : ∀ id t, job? w id = some t → Task.inHook t = false

theorem Still.stalled (h : Still w) : Stalled w where
  queue id t _ := by
    rw [h.queue]
    exact List.not_mem_nil
  hooks := h.hooks

theorem Stalled.awaited {id : TaskId} {t : Task η} {m : Mark} (h : Stalled w)
    (job : job? w id = some t) (awakes : Awakes w [] id m) : (state w).awaits m ≠ [] := by
  intro free
  rcases awakes with hready | ⟨a, _, hawaits | hdue⟩
  · exact h.queue id t job hready
  · rw [free] at hawaits
    cases hawaits
  · cases hdue

variable [Inhabited κ]

theorem Steady.awaited {id : TaskId} {t : Task η} {m : Mark} (h : Steady w since)
    (stalled : Stalled w) (crew : Crew w id t) (mark : t.mark? = some m) :
    (state w).awaits m ≠ [] := by
  have htended := h.tended id t crew
  have hhook := stalled.hooks id t crew.1
  cases t with
  | activation i hook =>
      cases hook with
      | none =>
          cases mark
          exact stalled.awaited crew.1 htended
      | some hook => cases hhook
  | teardown j hook =>
      cases hook with
      | none =>
          cases mark
          exact stalled.awaited crew.1 htended
      | some hook => cases hhook
  | grace job epoch => cases mark

theorem Steady.held_up {m : Mark} (h : Steady w since) (stalled : Stalled w)
    (outstanding : (state w).Outstanding m) : (state w).awaits m ≠ [] := by
  rcases h.staffed m outstanding nofun with ⟨id, t, hcrew, hmark⟩ | hstart
  · exact h.awaited stalled hcrew hmark
  · cases hstart

-- A hook that runs waits for no other, so that its end cannot be held up.
theorem Steady.atRest (h : Steady w since) (stalled : Stalled w) : (state w).AtRest where
  activationDue i := fun ⟨session, hget, hwaiting, hfree⟩ =>
    h.held_up (m := .activate i) stalled ⟨session, hget, hwaiting⟩ hfree
  activationRuns i := fun runs => h.held_up (m := .activated i) stalled runs rfl
  teardownDue j := fun ⟨teardown, hget, hwaiting, hfree⟩ =>
    h.held_up (m := .deactivate j) stalled ⟨teardown, hget, hwaiting⟩ hfree
  teardownRuns j := fun runs => h.held_up (m := .deactivated j) stalled runs rfl

theorem Steady.isKnown (h : Steady w since) (stalled : Stalled w) {i : Nat}
    (begun : i < (state w).sessions.length) : (state w).isKnown i = true := by
  obtain ⟨n, hpaced⟩ := h.paced
  have hended := List.countP_eq_length.mp (hpaced.endedActivations_of_atRest (h.atRest stalled))
  have hstage := hended _ (List.getElem_mem begun)
  rw [beq_iff_eq] at hstage
  rw [State.isKnown, List.getElem?_eq_getElem begun]
  simp [hstage]

theorem Steady.no_jobs (h : Steady w since) (still : Still w) (id : TaskId) : job? w id = none := by
  obtain ⟨n, hpaced⟩ := h.paced
  have hfree := hpaced.awaits_of_atRest (h.atRest still.stalled)
  cases hjob : job? w id with
  | none => rfl
  | some t =>
      have hcrew := h.crew hjob
      cases hmark : t.mark? with
      | some m => exact absurd (hfree m) (h.awaited still.stalled hcrew hmark)
      | none =>
          cases t with
          | grace job epoch => exact absurd (h.tended id _ hcrew) (still.not_ticks id job)
          | activation i hook => cases hook <;> cases hmark
          | teardown j hook => cases hook <;> cases hmark

structure Complete (w : W) : Prop where
  phase : (state w).phase = .inactive ∧ (state w).roster.members = [] ∨
    (state w).phase = .active ∧ (state w).roster.members ≠ []
  jobs : ∀ id, job? w id = none
  hooks : (state w).endedDeactivations + (if (state w).phase = .active then 1 else 0) =
    (state w).endedActivations
  deserted : (state w).roster.members = [] →
    (state w).endedActivations = (state w).sessions.length ∧
      (state w).endedDeactivations = (state w).sessions.length

theorem Steady.complete (h : Steady w since) (still : Still w) : Complete w := by
  obtain ⟨n, hpaced⟩ := h.paced
  have hrest := h.atRest still.stalled
  have hjobs := h.no_jobs still
  have hactivations := hpaced.endedActivations_of_atRest hrest
  have hdeactivations := hpaced.endedDeactivations_of_atRest hrest
  have hcount := hpaced.count
  cases hphase : (state w).phase with
  | inactive =>
      have hempty := Roster.isEmpty_iff.mp (h.manned.inactive hphase).1
      simp only [hphase, Phase.isLive, Bool.false_eq_true, if_false] at hcount
      refine ⟨.inl ⟨hphase, hempty⟩, hjobs, ?_, fun _ => ⟨hactivations, ?_⟩⟩
      · rw [hphase, if_neg Phase.noConfusion]
        omega
      · omega
  | activating => exact absurd hphase (hpaced.not_activating_of_atRest hrest)
  | active =>
      have hoccupied : (state w).roster.members ≠ [] := by
        rw [ne_eq, ← Roster.isEmpty_iff, h.manned.active hphase]
        exact Bool.false_ne_true
      simp only [hphase, Phase.isLive, if_true] at hcount
      refine ⟨.inr ⟨hphase, hoccupied⟩, hjobs, ?_, fun empty => absurd empty hoccupied⟩
      rw [hphase, if_pos rfl]
      omega
  | draining =>
      rcases (h.window hphase).live with ⟨id, job, hcrew⟩ | ⟨_, _, hdue⟩
      · rw [Crew, hjobs] at hcrew
        cases hcrew.1
      · cases hdue

end Still

section Run

variable {W σ τ γ κ η : Type} [DecidableEq σ] [Inhabited κ] [Hooked W σ τ γ κ η]
  [LawfulHosting W]

/-- When all leases have been given up and nothing can happen any more, whatever the gate had
started has been stopped. -/
theorem gate_without_leases_at_rest_is_inactive {settings : RelaySettings} {start w : W}
    {asks : List (Input γ κ)} (fresh : Fresh settings start) (run : Run start asks w)
    (still : Still w) (left : State.heldLeases 1 [] asks = []) :
    (state w).phase = .inactive ∧ (state w).endedActivations = (state w).sessions.length ∧
      (state w).endedDeactivations = (state w).sessions.length := by
  obtain ⟨begun, hsteady, _⟩ := fresh.steady.run run
  obtain ⟨occasions, _, hstate, hasks⟩ := fresh.steady.exists_run run
  have hentries : (state w).roster.entries = [] := by
    have hnone : ∀ e ∈ (state start).roster.entries, e.1 ∈ ([] : List ConsumerId) := by
      rw [fresh.state]
      exact fun e he => absurd he List.not_mem_nil
    have hheld := State.held_run hnone occasions
    have hfirst : (state start).roster.nextId = 1 := by rw [fresh.state]; rfl
    rw [hstate, hfirst, hasks, left] at hheld
    exact List.eq_nil_iff_forall_not_mem.mpr fun e he => absurd (hheld e he) List.not_mem_nil
  have hempty : (state w).roster.members = [] := by
    rw [Roster.members, hentries]
    rfl
  obtain ⟨hphase, _, _, hover⟩ := hsteady.complete still
  refine ⟨?_, hover hempty⟩
  rcases hphase with ⟨hinactive, _⟩ | ⟨_, hoccupied⟩
  · exact hinactive
  · exact absurd hempty hoccupied

/-- However users, hooks and clock behave, a gate that has come to rest is not stuck on the way
between two phases, and it owes no call of a hook. -/
theorem gate_at_rest_is_complete {settings : RelaySettings} {start w : W}
    {asks : List (Input γ κ)} (fresh : Fresh settings start) (run : Run start asks w)
    (still : Still w) : Complete w := by
  obtain ⟨begun, hsteady, _⟩ := fresh.steady.run run
  exact hsteady.complete still

end Run

theorem visited_gate_is_complete :
    Fresh { name := "plain", grace := .ofMs 500 } Plain.Visit.start ∧
      Run Plain.Visit.start [.attach (), .release 1] Plain.Visit.stopped ∧
      Still Plain.Visit.stopped ∧ Complete Plain.Visit.stopped := by
  have hfresh := Plain.fresh_plain (.ofMs 500) []
  have hstill : Still Plain.Visit.stopped := ⟨rfl, rfl, fun id t job => by cases job⟩
  exact ⟨hfresh, Plain.Visit.run_stopped, hstill,
    gate_at_rest_is_complete hfresh Plain.Visit.run_stopped hstill⟩

end Hosting

end Lifecycle.Gate
