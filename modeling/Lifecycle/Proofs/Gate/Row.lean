import Lifecycle.Proofs.Gate.Run

/-!
# The row of hook calls

All hook calls of a gate stand in one row: the starting hook of the first session, the stopping hook
of its teardown, the starting hook of the second session, and so on.  Each call begins and ends
before the next one begins.  So one number, how many of these beginnings and ends have happened,
tells the stage of every call.
-/

namespace Lifecycle.Gate

inductive Mark where
  | activate (i : Nat)
  | activated (i : Nat)
  | deactivate (j : Nat)
  | deactivated (j : Nat)
  deriving DecidableEq, Repr

/-- What happens to the hooks for one session, in order. -/
def cycle (i : Nat) : List Mark := [.activate i, .activated i, .deactivate i, .deactivated i]

/-- The beginnings and ends of the hooks of all sessions, by number. -/
def Mark.nth (n : Nat) : Mark :=
  match n % 4 with
  | 0 => .activate (n / 4)
  | 1 => .activated (n / 4)
  | 2 => .deactivate (n / 4)
  | _ => .deactivated (n / 4)

def Effect.mark? {γ κ : Type} : Effect γ κ → Option Mark
  | .callActivate i => some (.activate i)
  | .signal (.activationOver i) => some (.activated i)
  | .callDeactivate j => some (.deactivate j)
  | .signal (.teardownOver j) => some (.deactivated j)
  | _ => none

def marks {γ κ : Type} (effects : List (Effect γ κ)) : List Mark := effects.filterMap Effect.mark?

theorem Mark.nth_mul (i : Nat) : nth (4 * i) = .activate i := by
  have h₁ : 4 * i % 4 = 0 := by omega
  have h₂ : 4 * i / 4 = i := by omega
  simp [nth, h₁, h₂]

theorem Mark.nth_mul_add_one (i : Nat) : nth (4 * i + 1) = .activated i := by
  have h₁ : (4 * i + 1) % 4 = 1 := by omega
  have h₂ : (4 * i + 1) / 4 = i := by omega
  simp [nth, h₁, h₂]

theorem Mark.nth_mul_add_two (i : Nat) : nth (4 * i + 2) = .deactivate i := by
  have h₁ : (4 * i + 2) % 4 = 2 := by omega
  have h₂ : (4 * i + 2) / 4 = i := by omega
  simp [nth, h₁, h₂]

theorem Mark.nth_mul_add_three (i : Nat) : nth (4 * i + 3) = .deactivated i := by
  have h₁ : (4 * i + 3) % 4 = 3 := by omega
  have h₂ : (4 * i + 3) / 4 = i := by omega
  simp [nth, h₁, h₂]

theorem cycles_eq (k : Nat) :
    (List.range k).flatMap cycle = (List.range (4 * k)).map Mark.nth := by
  induction k with
  | zero => rfl
  | succ k ih =>
      rw [List.range_succ, List.flatMap_append, ih, show 4 * (k + 1) = 4 * k + 3 + 1 by omega]
      simp [List.range_succ, cycle, Mark.nth_mul, Mark.nth_mul_add_one, Mark.nth_mul_add_two,
        Mark.nth_mul_add_three]

def Mark.place : Mark → Nat
  | activate i => 4 * i
  | activated i => 4 * i + 1
  | deactivate j => 4 * j + 2
  | deactivated j => 4 * j + 3

theorem Mark.nth_place (m : Mark) : nth m.place = m := by
  cases m with
  | activate i => exact nth_mul i
  | activated i => exact nth_mul_add_one i
  | deactivate j => exact nth_mul_add_two j
  | deactivated j => exact nth_mul_add_three j

theorem Mark.place_nth (n : Nat) : (nth n).place = n := by
  have hmod : n % 4 = 0 ∨ n % 4 = 1 ∨ n % 4 = 2 ∨ n % 4 = 3 := by omega
  rcases hmod with h | h | h | h <;> simp [nth, place, h] <;> omega

theorem row_nodup (n : Nat) : ((List.range n).map Mark.nth).Nodup := by
  rw [List.Nodup, List.pairwise_map]
  refine List.nodup_range.imp fun {i j} hne heq => hne ?_
  rw [← Mark.place_nth i, heq, Mark.place_nth]

theorem mem_row_iff {n : Nat} {m : Mark} : m ∈ (List.range n).map Mark.nth ↔ m.place < n := by
  constructor
  · intro h
    obtain ⟨k, hk, rfl⟩ := List.mem_map.mp h
    rw [Mark.place_nth]
    exact List.mem_range.mp hk
  · intro h
    exact List.mem_map.mpr ⟨m.place, List.mem_range.mpr h, m.nth_place⟩

/-! ## The marks of effects -/

section Marks

variable {γ κ : Type}

@[simp] theorem marks_nil : marks ([] : List (Effect γ κ)) = [] := rfl

theorem marks_cons (e : Effect γ κ) (rest : List (Effect γ κ)) :
    marks (e :: rest) = e.mark?.toList ++ marks rest := by
  unfold marks
  rw [List.filterMap_cons]
  cases e.mark? <;> rfl

@[simp] theorem marks_append (a b : List (Effect γ κ)) : marks (a ++ b) = marks a ++ marks b :=
  List.filterMap_append

theorem marks_eq_nil {effects : List (Effect γ κ)} (h : ∀ e ∈ effects, e.mark? = none) :
    marks effects = [] :=
  List.filterMap_eq_nil_iff.mpr h

@[simp] theorem marks_reportEffects (s : State γ κ) (e : ProducerError) :
    marks (s.reportEffects e) = [] := rfl

@[simp] theorem marks_tearDown [Inhabited κ] (s : State γ κ) : marks s.tearDown.2 = [] := by
  simp only [State.tearDown]
  cases s.current <;> rfl

@[simp] theorem marks_failLive [Inhabited κ] (accepts : γ → Bool) (s : State γ κ)
    (e : ProducerError) : marks (s.failLive accepts e).2 = [] := by
  have hoffers : marks (s.roster.members.map (.offer · e) : List (Effect γ κ)) = [] := by
    apply marks_eq_nil
    intro effect heffect
    obtain ⟨c, _, rfl⟩ := List.mem_map.mp heffect
    rfl
  simp only [State.failLive, marks_append, hoffers, marks_tearDown]
  split <;> rfl

theorem marks_outcome [Inhabited κ] {accepts : γ → Bool} {s t : State γ κ} {i : Nat}
    {failure : Option ProducerError} {effects : List (Effect γ κ)}
    (outcome : State.Outcome accepts s i failure t effects) : marks effects = [] := by
  cases outcome with
  | failed e => exact marks_failLive accepts s e
  | deserted =>
      rw [marks_append, marks_tearDown]
      rfl
  | active => rfl
  | late => cases failure <;> rfl

@[simp] theorem marks_close (members : List γ) :
    marks (members.map .close : List (Effect γ κ)) = [] := by
  apply marks_eq_nil
  intro effect heffect
  obtain ⟨c, _, rfl⟩ := List.mem_map.mp heffect
  rfl

end Marks

/-! ## Stages by number -/

def Stage.reached (n h : Nat) : Stage :=
  if n ≤ 2 * h then .waiting else if n = 2 * h + 1 then .running else .ended

theorem Stage.reached_succ {n h : Nat} (other : n / 2 ≠ h) : reached (n + 1) h = reached n h := by
  unfold reached
  by_cases hwaiting : n ≤ 2 * h
  · rw [if_pos hwaiting, if_pos (by omega)]
  · rw [if_neg hwaiting, if_neg (by omega), if_neg (by omega), if_neg (by omega)]

theorem Stage.reached_eq_waiting_iff {n h : Nat} : reached n h = .waiting ↔ n ≤ 2 * h := by
  unfold reached
  split
  · simp [*]
  · split <;> simp [*]

theorem Stage.reached_eq_running_iff {n h : Nat} : reached n h = .running ↔ n = 2 * h + 1 := by
  unfold reached
  split
  · simp
    omega
  · split <;> simp [*]

theorem Stage.reached_eq_ended_iff {n h : Nat} : reached n h = .ended ↔ 2 * h + 2 ≤ n := by
  unfold reached
  split
  · simp
    omega
  · split
    · simp
      omega
    · simp
      omega

def before : Nat → Option Nat
  | 0 => none
  | i + 1 => some i

theorem before_eq_some_iff {i j : Nat} : before i = some j ↔ i = j + 1 := by
  cases i <;> simp [before]

end Lifecycle.Gate
