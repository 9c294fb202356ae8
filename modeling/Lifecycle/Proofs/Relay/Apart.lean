import Lifecycle.Proofs.Gate.Errands
import Lifecycle.Proofs.Relay.Staying

/-!
# Acts that do not concern a session

Consumers come, read and leave, hooks have their turns and other sessions produce.  By none of this
a session gives anything, and only the call of its starting hook hands it out.
-/

namespace Lifecycle.Gate.State

variable {γ κ : Type} {s t : State γ κ} {i j : Nat}

def stages (s : State γ κ) : List Stage := s.sessions.map Session.stage

theorem isKnown_eq (s : State γ κ) (i : Nat) :
    s.isKnown i = (s.stages[i]?).any (· != .waiting) := by
  rw [isKnown, stages, List.getElem?_map]
  cases s.sessions[i]? <;> rfl

theorem isKnown_congr (stages : t.stages = s.stages) (i : Nat) : t.isKnown i = s.isKnown i := by
  rw [isKnown_eq, isKnown_eq, stages]

theorem map_stage_cancelCurrent (s : State γ κ) : s.cancelCurrent.map Session.stage = s.stages := by
  unfold cancelCurrent stages
  cases s.current with
  | none => rfl
  | some i =>
      refine List.ext_getElem? fun k => ?_
      simp only [Option.toList_some, List.foldl_cons, List.foldl_nil, List.getElem?_map,
        List.getElem?_modify]
      cases s.sessions[k]? with
      | none => rfl
      | some x => by_cases hk : i = k <;> simp [hk]

theorem stages_tearDown [Inhabited κ] (s : State γ κ) : s.tearDown.1.stages = s.stages :=
  s.map_stage_cancelCurrent

theorem stages_drop (s : State γ κ) : s.drop.1.stages = s.stages := s.map_stage_cancelCurrent

theorem isKnown_setActivation_ne {stage : Stage} (other : i ≠ j) :
    (s.setActivation i stage).isKnown j = s.isKnown j := by
  simp only [isKnown, setActivation, List.getElem?_modify]
  cases s.sessions[j]? <;> simp [other]

theorem isKnown_setActivation {stage : Stage} (called : stage ≠ .waiting)
    (known : s.isKnown i = true) (j : Nat) :
    (s.setActivation i stage).isKnown j = s.isKnown j := by
  by_cases hj : i = j
  · subst hj
    simp only [isKnown, setActivation, List.getElem?_modify] at known ⊢
    cases hget : s.sessions[i]? with
    | none => rfl
    | some x =>
        rw [hget] at known
        simp only [Option.map_eq_map, Option.map_some, if_true, known, bne_iff_ne]
        exact called
  · exact isKnown_setActivation_ne hj

theorem isKnown_of_runs (runs : s.ActivationRuns i) : s.isKnown i = true := by
  obtain ⟨session, hget, hrunning⟩ := runs
  simp [isKnown, hget, hrunning]

variable [Inhabited κ] {accepts : γ → Bool} {effects : List (Effect γ κ)} {input : Input γ κ}

theorem Outcome.isKnown {failure : Option ProducerError}
    (outcome : Outcome accepts s i failure t effects) (j : Nat) :
    t.isKnown j = s.isKnown j := by
  apply isKnown_congr
  cases outcome with
  | failed => exact stages_tearDown _
  | deserted => exact stages_tearDown s
  | active => rfl
  | late => rfl

theorem Move.isKnown (move : Move accepts s input t effects) (other : input ≠ .activate j) :
    t.isKnown j = s.isKnown j := by
  cases move with
  | begin c =>
      rw [isKnown_eq, isKnown_eq, stages, beginSession, List.map_append, List.getElem?_append]
      split
      · rfl
      · rename_i hlong
        rw [stages, List.getElem?_eq_none (Nat.le_of_not_lt hlong)]
        cases j - (s.sessions.map Session.stage).length <;> rfl
  | partLast => exact isKnown_congr (stages_tearDown _) j
  | elapse => exact isKnown_congr (stages_tearDown s) j
  | complete => exact isKnown_congr (stages_tearDown _) j
  | fail => exact isKnown_congr (stages_tearDown _) j
  | call i => exact isKnown_setActivation_ne fun heq => other (by rw [heq])
  | skip i due cancelled outcome =>
      rw [outcome.isKnown]
      exact isKnown_setActivation_ne fun heq => other (by rw [heq])
  | activated i result runs outcome =>
      rw [outcome.isKnown]
      exact isKnown_setActivation Stage.noConfusion (isKnown_of_runs runs) j
  | drop => exact isKnown_congr s.stages_drop j
  | _ => rfl

theorem Outcome.dropped {failure : Option ProducerError}
    (outcome : Outcome accepts s i failure t effects) : t.dropped = s.dropped := by
  cases outcome <;> rfl

theorem Move.dropped (move : Move accepts s input t effects) (other : input ≠ .drop) :
    t.dropped = s.dropped := by
  cases move with
  | skip i due cancelled outcome => exact outcome.dropped
  | activated i result runs outcome => exact outcome.dropped
  | drop => exact absurd rfl other
  | _ => rfl

end Lifecycle.Gate.State

namespace Lifecycle.Relay

open Gate.State (Move)

/-- By such an act the session may give something or end, or it is handed out. -/
def Act.concerns (c : Nat) : Act → Bool
  | .emit i _ | .gate (.complete i) | .gate (.fail i _) | .gate (.activate i) => i == c
  | _ => false

theorem Act.concerns_other {a : Act} {i j : Nat} (own : a.concerns i = true) (other : i ≠ j) :
    a.concerns j = false := by
  have hne {k : Nat} (hk : (k == i) = true) : (k == j) = false := by
    rw [beq_iff_eq.mp hk]
    exact beq_eq_false_iff_ne.mpr other
  cases a with
  | emit k v => exact hne own
  | gate input =>
      cases input with
      | complete k => exact hne own
      | fail k e => exact hne own
      | activate k => exact hne own
      | _ => cases own
  | _ => cases own

section Apart

variable {s : State} {past : List Moment} {a : Act} {acts : List Act} {c : Nat}

theorem gives?_of_apart (apart : a.concerns c = false) : Moment.gives? c ⟨s, a⟩ = none := by
  cases a with
  | emit i v => exact if_neg fun h => beq_eq_false_iff_ne.mp apart h.1
  | gate input =>
      cases input with
      | fail i e => exact if_neg fun h => beq_eq_false_iff_ne.mp apart h.1
      | _ => rfl
  | _ => rfl

theorem ends_of_apart (apart : a.concerns c = false) : Moment.ends c ⟨s, a⟩ = false := by
  cases a with
  | gate input =>
      cases input with
      | fail i e =>
          have hi : (i == c) = false := apart
          simp only [Moment.ends, hi, Bool.false_and]
      | complete i =>
          have hi : (i == c) = false := apart
          simp only [Moment.ends, hi, Bool.false_and]
      | _ => rfl
  | _ => rfl

theorem output_of_apart (apart : ∀ a ∈ acts, a.concerns c = false) (s : State) :
    output c (s.history acts) = [] := by
  induction acts generalizing s with
  | nil => rfl
  | cons a rest ih =>
      have hgives : Moment.gives? c ⟨s, a⟩ = none := gives?_of_apart (apart a List.mem_cons_self)
      have hrest := ih (fun a ha => apart a (List.mem_cons_of_mem _ ha)) (s.act a)
      rw [State.history, output, List.filterMap_cons_none hgives]
      exact hrest

theorem ended_of_apart (apart : ∀ a ∈ acts, a.concerns c = false) (s : State) :
    ended c (s.history acts) = false := by
  induction acts generalizing s with
  | nil => rfl
  | cons a rest ih =>
      have hends : Moment.ends c ⟨s, a⟩ = false := ends_of_apart (apart a List.mem_cons_self)
      have hrest := ih (fun a ha => apart a (List.mem_cons_of_mem _ ha)) (s.act a)
      rw [State.history, ended, List.any_cons, hends]
      exact hrest

theorem State.move_act (s : State) (a : Act) : (s.act a).gate = s.gate ∨
    ∃ accepts input effects, Move accepts s.gate input (s.act a).gate effects ∧
      (input.isErrand = true → a = .gate input) := by
  rw [s.gate_act a]
  cases hasked : s.occasion? a with
  | none => exact .inl rfl
  | some o =>
      refine .inr ⟨o.accepts, o.input, _, Gate.State.take_move s.gate o, fun errand => ?_⟩
      cases a with
      | gate input =>
          cases hasked
          rfl
      | attach => cases hasked; cases errand
      | emit => cases hasked; cases errand
      | _ => cases hasked

theorem isKnown_act (other : a ≠ .gate (.activate c)) (s : State) :
    (s.act a).gate.isKnown c = s.gate.isKnown c := by
  rcases s.move_act a with same | ⟨accepts, input, effects, hmove, herrand⟩
  · rw [same]
  · refine hmove.isKnown fun hinput => other ?_
    rw [herrand (by rw [hinput]; rfl), hinput]

theorem isKnown_after (other : ∀ a ∈ acts, a ≠ .gate (.activate c)) (s : State) :
    (s.after acts).gate.isKnown c = s.gate.isKnown c := by
  induction acts generalizing s with
  | nil => rfl
  | cons a rest ih =>
      exact (ih (fun a ha => other a (List.mem_cons_of_mem _ ha)) (s.act a)).trans
        (isKnown_act (other a List.mem_cons_self) s)

theorem isKnown_of_apart (apart : ∀ a ∈ acts, a.concerns c = false) (s : State) :
    (s.after acts).gate.isKnown c = s.gate.isKnown c := by
  refine isKnown_after (fun a ha hactivate => ?_) s
  have happart := apart a ha
  rw [hactivate, Act.concerns, beq_self_eq_true] at happart
  cases happart

theorem dropped_act (other : a ≠ .gate .drop) (s : State) :
    (s.act a).gate.dropped = s.gate.dropped := by
  rcases s.move_act a with same | ⟨accepts, input, effects, hmove, herrand⟩
  · rw [same]
  · refine hmove.dropped fun hinput => other ?_
    rw [herrand (by rw [hinput]; rfl), hinput]

theorem dropped_after (other : ∀ a ∈ acts, a ≠ .gate .drop) (s : State) :
    (s.after acts).gate.dropped = s.gate.dropped := by
  induction acts generalizing s with
  | nil => rfl
  | cons a rest ih =>
      have hfirst := dropped_act (other a List.mem_cons_self) s
      exact (ih (fun a ha => other a (List.mem_cons_of_mem _ ha)) (s.act a)).trans hfirst

theorem Attended.over_after (h : Attended s past) (orderly : s.orderly acts = true)
    (begun : c < s.gate.sessions.length) (finished : s.gate.isCurrent c = false) :
    (s.after acts).gate.isCurrent c = false := by
  induction acts generalizing s past with
  | nil => exact finished
  | cons a rest ih =>
      rw [State.orderly_cons] at orderly
      exact ih (h.act orderly.1) orderly.2 (Nat.lt_of_lt_of_le begun (sessions_le_act s a))
        (h.toKept.over_act orderly.1 begun finished)

/-- A session that is over gives nothing and does not end again, whatever is asked of it. -/
theorem Attended.silent_after (h : Attended s past) (orderly : s.orderly acts = true)
    (begun : c < s.gate.sessions.length) (finished : s.gate.isCurrent c = false) :
    output c (s.history acts) = [] ∧ ended c (s.history acts) = false := by
  induction acts generalizing s past with
  | nil => exact ⟨rfl, rfl⟩
  | cons a rest ih =>
      rw [State.orderly_cons] at orderly
      obtain ⟨houtput, hended⟩ := ih (h.act orderly.1) orderly.2
        (Nat.lt_of_lt_of_le begun (sessions_le_act s a))
        (h.toKept.over_act orderly.1 begun finished)
      have hgives : Moment.gives? c ⟨s, a⟩ = none := gives?_of_over finished
      have hends : Moment.ends c ⟨s, a⟩ = false := ends_of_over finished
      refine ⟨?_, ?_⟩
      · rw [State.history, output, List.filterMap_cons_none hgives]
        exact houtput
      · rw [State.history, ended, List.any_cons, hends]
        exact hended

end Apart

end Lifecycle.Relay
