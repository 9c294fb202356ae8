import Lifecycle.Proofs.Gate.Roster

/-!
# Phases and consumers of a gate

Without a producer there are no consumers and nothing is cached; an active gate has consumers, and a
draining one has none.  Every step keeps this, whether its input can come about or not.
-/

namespace Lifecycle.Gate

theorem Phase.eq_inactive_iff {phase : Phase} : phase = .inactive ↔ phase.isLive = false := by
  cases phase <;> simp [isLive]

namespace State

variable {γ κ : Type}

theorem isCurrent_eq_false {s : State γ κ} (past : s.phase.isLive = false) (i : Nat) :
    s.isCurrent i = false := by
  unfold isCurrent
  cases s.sessions[i]? with
  | none => rfl
  | some session => simp [past]

variable [Inhabited κ]

structure Manned (s : State γ κ) : Prop where
  inactive : s.phase = .inactive → s.roster.isEmpty = true ∧ s.cache = default
  active : s.phase = .active → s.roster.isEmpty = false
  draining : s.phase = .draining → s.roster.isEmpty = true ∧ s.grace.isSome = true

theorem manned_fresh (name : String) (grace : Option Span) :
    Manned (fresh name grace : State γ κ) where
  inactive _ := ⟨rfl, rfl⟩
  active h := by simp [fresh] at h
  draining h := by simp [fresh] at h

namespace Manned

variable {accepts : γ → Bool} {s t : State γ κ} {effects : List (Effect γ κ)}

theorem tearDown (empty : s.roster.isEmpty = true) : Manned s.tearDown.1 where
  inactive _ := ⟨empty, rfl⟩
  active h := by simp [State.tearDown] at h
  draining h := by simp [State.tearDown] at h

theorem outcome (h : Manned s) {i : Nat} {failure : Option ProducerError}
    (outcome : Outcome accepts s i failure t effects) : Manned t := by
  cases outcome with
  | failed e => exact tearDown (s := { s with roster := s.roster.clear }) rfl
  | deserted _ _ empty => exact tearDown empty
  | active _ _ occupied =>
      constructor
      · intro hnow
        cases hnow
      · intro _
        exact occupied
      · intro hnow
        cases hnow
  | late => exact h

theorem move (h : Manned s) {input : Input γ κ} (move : Move accepts s input t effects) :
    Manned t := by
  cases move with
  | refuse => exact h
  | begin c =>
      constructor
      · intro hnow
        cases hnow
      · intro hnow
        cases hnow
      · intro hnow
        cases hnow
  | join c shared =>
      constructor
      · intro hnow
        rcases shared with shared | shared <;> rw [shared] at hnow <;> cases hnow
      · intro _
        exact Roster.isEmpty_insert _ _
      · intro hnow
        rcases shared with shared | shared <;> rw [shared] at hnow <;> cases hnow
  | rejoin c =>
      constructor
      · intro hnow
        cases hnow
      · intro _
        exact Roster.isEmpty_insert _ _
      · intro hnow
        cases hnow
  | part id c attached stays =>
      have hoccupied := Roster.occupied_of_find? attached
      constructor
      · intro hnow
        rw [(h.inactive hnow).1] at hoccupied
        cases hoccupied
      · intro hnow
        cases hlast : (s.roster.erase id).isEmpty with
        | false => rfl
        | true => exact absurd ⟨hlast, hnow⟩ stays
      · intro hnow
        rw [(h.draining hnow).1] at hoccupied
        cases hoccupied
  | drain id c grace attached last active patient =>
      constructor
      · intro hnow
        cases hnow
      · intro hnow
        cases hnow
      · intro _
        exact ⟨last, by rw [patient, Option.isSome_some]⟩
  | partLast id c attached last =>
      exact tearDown (s := { s with roster := s.roster.erase id }) last
  | elapse epoch draining same empty => exact tearDown empty
  | update i f current =>
      refine ⟨fun hnow => ?_, h.active, h.draining⟩
      rw [isCurrent_eq_false (by rw [hnow, Phase.isLive])] at current
      cases current
  | complete => exact tearDown (s := { s with roster := s.roster.clear }) rfl
  | fail => exact tearDown (s := { s with roster := s.roster.clear }) rfl
  | failLate => exact h
  | call => exact ⟨h.inactive, h.active, h.draining⟩
  | skip i due cancelled outcome =>
      have hstage : Manned (s.setActivation i .ended) := ⟨h.inactive, h.active, h.draining⟩
      exact hstage.outcome outcome
  | activated i result runs outcome =>
      have hstage : Manned (s.setActivation i .ended) := ⟨h.inactive, h.active, h.draining⟩
      exact hstage.outcome outcome
  | deactivate => exact ⟨h.inactive, h.active, h.draining⟩
  | deactivated => exact ⟨h.inactive, h.active, h.draining⟩
  | drop => exact ⟨h.inactive, h.active, h.draining⟩

theorem step (h : Manned s) (input : Input γ κ) : Manned (s.step accepts input).1 :=
  h.move (step_move s input)

end Manned

end State

end Lifecycle.Gate
