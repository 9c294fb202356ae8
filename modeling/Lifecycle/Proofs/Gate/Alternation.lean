import Lifecycle.Proofs.Gate.Pace

/-!
# The hooks of a gate alternate

However consumers come and go and however hooks and sessions end, the hooks of a gate are called one
at a time and in turn: the starting hook of a session, the stopping hook of its teardown, and so on
with the next session.  No session and no teardown is passed over.
-/

namespace Lifecycle.Gate

namespace State

variable {γ κ : Type}

structure AtRest (s : State γ κ) : Prop where
  activationDue : ∀ i, ¬s.ActivationDue i
  activationRuns : ∀ i, ¬s.ActivationRuns i
  teardownDue : ∀ j, ¬s.TeardownDue j
  teardownRuns : ∀ j, ¬s.TeardownRuns j

/-- The marks of a gate at rest: all of each session that is over, and the start of the live one. -/
def settledMarks (s : State γ κ) : List Mark :=
  (List.range s.teardowns.length).flatMap cycle ++
    if s.phase.isLive then [.activate s.teardowns.length, .activated s.teardowns.length] else []

namespace Paced

variable {s : State γ κ} {n : Nat}

theorem le_row (h : Paced s n) : n ≤ 4 * s.sessions.length := by
  have hcount := h.count
  have hpace := h.pace
  cases hlive : s.phase.isLive with
  | true =>
      have hle := hpace.high
      rw [h.count_eq hlive]
      omega
  | false =>
      rw [Phase.eq_inactive_iff.mpr hlive] at hpace
      simp only [InPace] at hpace
      omega

theorem row_of_atRest (h : Paced s n) (rest : AtRest s) :
    n = 4 * s.teardowns.length + if s.phase.isLive then 2 else 0 := by
  have hover : 4 * s.teardowns.length ≤ n := by
    rcases Nat.lt_or_ge n (4 * s.teardowns.length) with hlt | hge
    · have hcount := h.count
      have hmod : n = 4 * (n / 4) ∨ n = 4 * (n / 4) + 1 ∨ n = 4 * (n / 4) + 2 ∨
          n = 4 * (n / 4) + 3 := by omega
      rcases hmod with hn | hn | hn | hn
      · exact absurd ((h.activationDue_iff _).mpr ⟨by omega, hn⟩) (rest.activationDue _)
      · exact absurd ((h.activationRuns_iff _).mpr ⟨by omega, hn⟩) (rest.activationRuns _)
      · exact absurd ((h.teardownDue_iff _).mpr ⟨by omega, hn⟩) (rest.teardownDue _)
      · exact absurd ((h.teardownRuns_iff _).mpr ⟨by omega, hn⟩) (rest.teardownRuns _)
    · exact hge
  cases hlive : s.phase.isLive with
  | true =>
      have hcount := h.count_eq hlive
      have hle := h.pace.high
      have hdue : n ≠ 4 * s.teardowns.length := by
        intro hn
        exact rest.activationDue _ ((h.activationDue_iff _).mpr ⟨by omega, hn⟩)
      have hruns : n ≠ 4 * s.teardowns.length + 1 := by
        intro hn
        exact rest.activationRuns _ ((h.activationRuns_iff _).mpr ⟨by omega, hn⟩)
      simp only [if_true]
      omega
  | false =>
      have hle := h.le_row
      have hcount := h.count
      rw [hlive] at hcount
      simp only [Bool.false_eq_true, if_false] at hcount ⊢
      omega

theorem row_eq_settledMarks (h : Paced s n) (rest : AtRest s) :
    (List.range n).map Mark.nth = s.settledMarks := by
  rw [h.row_of_atRest rest, settledMarks, cycles_eq]
  cases s.phase.isLive with
  | true =>
      simp [List.range_succ, Mark.nth_mul, Mark.nth_mul_add_one]
  | false => simp

theorem row_prefix (h : Paced s n) :
    (List.range n).map Mark.nth <+: (List.range s.sessions.length).flatMap cycle := by
  obtain ⟨k, hk⟩ := Nat.exists_eq_add_of_le h.le_row
  rw [cycles_eq, hk, List.range_add, List.map_append]
  exact List.prefix_append _ _

end Paced

/-! ## The calls of a step -/

variable [Inhabited κ] {accepts : γ → Bool}

theorem Move.teardownDue {s t : State γ κ} {input : Input γ κ} {effects : List (Effect γ κ)}
    (move : Move accepts s input t effects) {j : Nat}
    (called : Mark.deactivate j ∈ marks effects) : s.TeardownDue j := by
  have quiet (hquiet : marks effects = []) : s.TeardownDue j := by
    rw [hquiet] at called
    cases called
  cases move with
  | refuse => exact quiet rfl
  | begin => exact quiet rfl
  | join => exact quiet rfl
  | rejoin => exact quiet rfl
  | part => exact quiet rfl
  | drain => exact quiet rfl
  | partLast =>
      apply quiet
      rw [marks_append, marks_append, marks_tearDown]
      rfl
  | elapse =>
      apply quiet
      rw [marks_append, marks_tearDown]
      rfl
  | update => exact quiet rfl
  | complete =>
      apply quiet
      rw [marks_append, marks_append, marks_close, marks_tearDown]
      rfl
  | fail => exact quiet (marks_failLive _ _ _)
  | failLate => exact quiet rfl
  | call => simp [marks, Effect.mark?] at called
  | skip i due cancelled outcome =>
      rw [marks_cons, marks_outcome outcome] at called
      simp [Effect.mark?] at called
  | activated i result runs outcome =>
      rw [marks_cons, marks_outcome outcome] at called
      simp [Effect.mark?] at called
  | deactivate k due =>
      have heq : j = k := by simpa [marks, Effect.mark?] using called
      rw [heq]
      exact due
  | deactivated k panic =>
      cases panic <;> simp [marks, Effect.mark?, reportEffects] at called
  | drop =>
      apply quiet
      simp only [State.drop]
      cases s.current <;> rfl

theorem step_activate_of_due {s : State γ κ} {i : Nat} (due : s.ActivationDue i)
    (uncancelled : s.isCancelled i = false) :
    s.step accepts (.activate i) = (s.setActivation i .running, [.callActivate i]) := by
  have hmove : Move accepts s (.activate i) _ _ := step_move s (.activate i)
  generalize s.step accepts (.activate i) = r at hmove ⊢
  obtain ⟨t, effects⟩ := r
  dsimp only at hmove
  cases hmove with
  | refuse _ ignored => exact absurd due ignored
  | call => rfl
  | skip _ _ cancelled =>
      rw [uncancelled] at cancelled
      cases cancelled

theorem step_deactivate_of_due {s : State γ κ} {j : Nat} (due : s.TeardownDue j) :
    s.step accepts (.deactivate j) = (s.setTeardown j .running, [.callDeactivate j]) := by
  have hmove : Move accepts s (.deactivate j) _ _ := step_move s (.deactivate j)
  generalize s.step accepts (.deactivate j) = r at hmove ⊢
  obtain ⟨t, effects⟩ := r
  dsimp only at hmove
  cases hmove with
  | refuse _ ignored => exact absurd due ignored
  | deactivate => rfl

/-! ## Runs -/

/-- What holds of the hooks after a run with the given effects.  Each call is over before the next
one begins, the calls come in turn, neither a session nor a teardown is passed over, and with
nothing left to do all sessions that are over have been stopped. -/
structure Alternates (s : State γ κ) (effects : List (Effect γ κ)) : Prop where
  row : marks effects <+: (List.range s.sessions.length).flatMap cycle
  once : (marks effects).Nodup
  called : ∀ i, .activate i ∈ marks effects ↔ s.isKnown i = true
  starts : ∀ i, s.ActivationDue i → s.isCancelled i = false ∧
    ∀ accepts, s.step accepts (.activate i) = (s.setActivation i .running, [.callActivate i])
  ended : ∀ i, s.isCancelled i = true ↔
    ∃ teardown, s.teardowns[i]? = some teardown ∧ teardown.session = some i
  stopped : ∀ o : Occasion γ κ, ∀ j, .deactivate j ∈ marks (s.take o).2 →
    s.isCancelled j = true ∧ s.activationOver j = true
  stops : ∀ j, s.TeardownDue j →
    ∀ accepts, s.step accepts (.deactivate j) = (s.setTeardown j .running, [.callDeactivate j])
  settled : AtRest s → marks effects = s.settledMarks

theorem hooks_alternate (name : String) (grace : Option Span) (occasions : List (Occasion γ κ))
    (orderly : (fresh name grace : State γ κ).orderly occasions = true) :
    Alternates ((fresh name grace).run occasions).1 ((fresh name grace).run occasions).2 := by
  obtain ⟨n, h, _, hmarks⟩ := paced_run name grace orderly
  generalize ((fresh name grace : State γ κ).run occasions).1 = s at h ⊢
  generalize ((fresh name grace : State γ κ).run occasions).2 = effects at hmarks ⊢
  constructor
  · rw [hmarks]
    exact h.row_prefix
  · rw [hmarks]
    exact row_nodup n
  · intro i
    have hle := h.le_row
    rw [hmarks, mem_row_iff, h.isKnown_iff, Mark.place]
    omega
  · intro i due
    have huncancelled := h.uncancelled_of_due due
    exact ⟨huncancelled, fun accepts => step_activate_of_due due huncancelled⟩
  · intro i
    rw [h.isCancelled_iff]
    constructor
    · intro hi
      exact ⟨_, h.teardowns i hi, rfl⟩
    · rintro ⟨teardown, hget, _⟩
      exact (h.lt_of_get_teardown hget).1
  · intro o j hcalled
    have hdue := (take_move s o).teardownDue hcalled
    obtain ⟨hj, hn⟩ := (h.teardownDue_iff j).mp hdue
    have hcount := h.count
    constructor
    · exact (h.isCancelled_iff j).mpr hj
    · exact (h.activationOver_iff (by omega)).mpr (by omega)
  · intro j due accepts
    exact step_deactivate_of_due due
  · intro rest
    rw [hmarks]
    exact h.row_eq_settledMarks rest

/-- Two sessions: the first completes while its starting hook runs and the second waits for the
teardown, whose hook panics. -/
def hastyHandover : List (Occasion Nat Unit) :=
  [.attach 1, .activate 0, .complete 0, .attach 2, .activated 0 (.refused (.failed "late")),
    .activate 1, .deactivate 0, .activate 1, .deactivated 0 (some "stuck"), .activate 1,
    .activated 1 .returned].map fun input => { input, accepts := fun _ => true }

theorem hooks_alternate_in_hasty_handover :
    (fresh "gate" none : State Nat Unit).orderly hastyHandover = true ∧
      marks ((fresh "gate" none : State Nat Unit).run hastyHandover).2 =
        cycle 0 ++ [.activate 1, .activated 1] ∧
      marks ((fresh "gate" none : State Nat Unit).run hastyHandover).2 <+: cycle 0 ++ cycle 1 :=
  ⟨by decide, by decide, (hooks_alternate "gate" none hastyHandover (by decide)).row⟩

end State

end Lifecycle.Gate
