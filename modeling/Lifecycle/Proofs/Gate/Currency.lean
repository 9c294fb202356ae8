import Lifecycle.Proofs.Gate.Consistency

/-!
# When a session is current

A generation, a phase, a token and the existence of the gate each tell whether a session is over.
They turn in the same step: a session that has begun is current exactly while its token is not
cancelled, the one that is current is the newest, and what is over stays over.
-/

namespace Lifecycle.Gate.State

variable {γ κ : Type} {s t : State γ κ} {n : Nat}

theorem Aligned.isCurrent_iff_uncancelled (h : Aligned s n) {i : Nat} (hi : i < s.sessions.length) :
    s.isCurrent i = true ↔ s.isCancelled i = false := by
  rw [← Bool.not_eq_true, h.isCancelled_iff, h.isCurrent_iff, Nat.not_lt]
  constructor
  · rintro ⟨_, rfl⟩
    exact Nat.le_refl _
  · exact h.live_of_le hi

variable [Inhabited κ]

/-- All that can be done with a session goes by its token: no other session is current with it, and
once it is over it changes nothing any more. -/
structure Views (s : State γ κ) (i : Nat) : Prop where
  token : s.isCurrent i = true ↔ s.isCancelled i = false
  newest : s.isCurrent i = true → i + 1 = s.sessions.length
  alone : s.isCurrent i = true → ∀ j, s.isCurrent j = true → j = i
  updates : ∀ accepts f, s.step accepts (.update i f) =
    if s.isCancelled i then (s, []) else ({ s with cache := f s.cache }, [])
  completes : ∀ accepts, .startTeardown s.teardowns.length ∈ (s.step accepts (.complete i)).2 ↔
    s.isCancelled i = false
  inert : s.isCancelled i = true → ∀ accepts,
    s.step accepts (.complete i) = (s, []) ∧ ∀ e, (s.step accepts (.fail i e)).1 = s

theorem Aligned.views (h : Aligned s n) {i : Nat} (hi : i < s.sessions.length) : Views s i := by
  have htoken := h.isCurrent_iff_uncancelled hi
  have hstale (cancelled : s.isCancelled i = true) : s.isCurrent i = false := by
    rw [← Bool.not_eq_true, htoken, cancelled]
    exact Bool.noConfusion
  refine ⟨htoken, fun current => ?_, fun current j hj => h.current_unique hj current,
    fun accepts f => ?_, fun accepts => ?_, fun cancelled accepts => ⟨?_, fun e => ?_⟩⟩
  · obtain ⟨hlive, rfl⟩ := (h.isCurrent_iff i).mp current
    exact (h.count_eq hlive).symm
  · cases hcancelled : s.isCancelled i with
    | true => simp [step, hstale hcancelled]
    | false => simp [step, htoken.mpr hcancelled]
  · simp only [step, complete]
    cases hcancelled : s.isCancelled i with
    | true => simp [hstale hcancelled]
    | false => simp [htoken.mpr hcancelled]
  · simp [step, complete, hstale cancelled]
  · simp only [step, fail, hstale cancelled]
    cases s.dropped <;> rfl

/-! ## What is over stays over -/

section Later

variable {accepts : γ → Bool} {effects : List (Effect γ κ)}

theorem Outcome.teardowns_le {i : Nat} {failure : Option ProducerError}
    (outcome : Outcome accepts s i failure t effects) :
    s.teardowns.length ≤ t.teardowns.length := by
  cases outcome with
  | failed => simp [failLive, tearDown]
  | deserted => simp [tearDown]
  | active => exact Nat.le_refl _
  | late => exact Nat.le_refl _

theorem Move.teardowns_le {input : Input γ κ} (move : Move accepts s input t effects) :
    s.teardowns.length ≤ t.teardowns.length := by
  cases move with
  | partLast => simp [tearDown]
  | elapse => simp [tearDown]
  | complete => simp [tearDown]
  | fail => simp [failLive, tearDown]
  | skip i due cancelled outcome => exact outcome.teardowns_le
  | activated i result runs outcome => exact outcome.teardowns_le
  | deactivate => simp [setTeardown]
  | deactivated => simp [setTeardown]
  | _ => exact Nat.le_refl _

end Later

theorem teardowns_le_run (s : State γ κ) (later : List (Occasion γ κ)) :
    s.teardowns.length ≤ (s.run later).1.teardowns.length := by
  induction later generalizing s with
  | nil => exact Nat.le_refl _
  | cons o rest ih =>
      rw [run_cons]
      exact Nat.le_trans (take_move s o).teardowns_le (ih _)

theorem Paced.stays_over (h : Paced s n) (manned : Manned s) {later : List (Occasion γ κ)}
    (orderly : s.orderly later = true) {i : Nat} (hi : i < s.sessions.length)
    (past : s.isCurrent i = false) : (s.run later).1.isCurrent i = false := by
  obtain ⟨m, hm, _⟩ := h.run manned orderly
  have hcancelled : s.isCancelled i = true := by
    rw [← Bool.not_eq_false, ← h.isCurrent_iff_uncancelled hi, past]
    exact Bool.noConfusion
  -- A session is over when as many teardowns have begun, and these are never taken back.
  have hpast := (h.isCancelled_iff i).mp hcancelled
  have hgrown := teardowns_le_run s later
  rw [← Bool.not_eq_true, hm.isCurrent_iff]
  rintro ⟨_, rfl⟩
  omega

end Lifecycle.Gate.State
