import Lifecycle.Proofs.Gate.Consumers
import Lifecycle.Proofs.Gate.Pace
import Lifecycle.Settings

/-!
# Phase, consumers, cache, session and generation of a gate

These five change together and never disagree: each is determined by the others in every state that
a gate can reach.  What the cache holds was put there by the live session alone.
-/

namespace Lifecycle.Gate

section Updates

variable {γ κ : Type}

def Input.update? (i : Nat) : Input γ κ → Option (κ → κ)
  | .update j f => if j = i then some f else none
  | _ => none

def updates (i : Nat) (occasions : List (Occasion γ κ)) : List (κ → κ) :=
  occasions.filterMap fun o => o.input.update? i

def remembered [Inhabited κ] (i : Nat) (occasions : List (Occasion γ κ)) : κ :=
  (updates i occasions).foldl (fun cache f => f cache) default

@[simp] theorem updates_append (i : Nat) (a b : List (Occasion γ κ)) :
    updates i (a ++ b) = updates i a ++ updates i b := List.filterMap_append

theorem updates_singleton (i : Nat) (o : Occasion γ κ) :
    updates i [o] = (o.input.update? i).toList := by
  cases h : o.input.update? i <;> simp [updates, h]

theorem remembered_snoc [Inhabited κ] (i : Nat) (past : List (Occasion γ κ)) (o : Occasion γ κ) :
    remembered i (past ++ [o]) =
      (o.input.update? i).elim (remembered i past) (· (remembered i past)) := by
  rw [remembered, updates_append, List.foldl_append, updates_singleton]
  cases o.input.update? i <;> rfl

end Updates

namespace State

variable {γ κ : Type}

theorem isKnown_lt {s : State γ κ} {i : Nat} (known : s.isKnown i = true) :
    i < s.sessions.length := by
  rw [isKnown] at known
  cases hget : s.sessions[i]? with
  | none => simp [hget] at known
  | some session => exact (List.getElem?_eq_some_iff.mp hget).1

theorem ActivationDue.isKnown {s : State γ κ} {i : Nat} (due : s.ActivationDue i) :
    s.isKnown i = false := by
  obtain ⟨session, hget, hwaiting, _⟩ := due
  simp [State.isKnown, hget, hwaiting]

theorem ActivationDue.isKnown_running {s : State γ κ} {i : Nat} (due : s.ActivationDue i) :
    (s.setActivation i .running).isKnown i = true := by
  obtain ⟨session, hget, _⟩ := due
  simp [State.isKnown, setActivation, hget]

theorem Aligned.current_eq_some_iff {s : State γ κ} {n : Nat} (h : Aligned s n) (i : Nat) :
    s.current = some i ↔ s.isCurrent i = true := by
  rw [h.current, h.isCurrent_iff]
  cases s.phase.isLive <;> simp [eq_comm]

theorem Aligned.current_unique {s : State γ κ} {n i j : Nat} (h : Aligned s n)
    (hi : s.isCurrent i = true) (hj : s.isCurrent j = true) : i = j := by
  rw [h.isCurrent_iff] at hi hj
  rw [hi.2, hj.2]

variable [Inhabited κ] {accepts : γ → Bool} {s t : State γ κ} {effects : List (Effect γ κ)}

theorem Outcome.sessions_length {i : Nat} {failure : Option ProducerError}
    (outcome : Outcome accepts s i failure t effects) :
    t.sessions.length = s.sessions.length := by
  cases outcome with
  | failed => exact length_cancelCurrent _
  | deserted => exact length_cancelCurrent _
  | active => rfl
  | late => rfl

theorem Move.sessions_le {input : Input γ κ} (move : Move accepts s input t effects) :
    s.sessions.length ≤ t.sessions.length := by
  cases move with
  | begin => simp [beginSession]
  | partLast => exact Nat.le_of_eq (length_cancelCurrent _).symm
  | elapse => exact Nat.le_of_eq (length_cancelCurrent _).symm
  | complete => exact Nat.le_of_eq (length_cancelCurrent _).symm
  | fail => exact Nat.le_of_eq (length_cancelCurrent _).symm
  | call => simp [setActivation]
  | skip i due cancelled outcome => simp [outcome.sessions_length, setActivation]
  | activated i result runs outcome => simp [outcome.sessions_length, setActivation]
  | drop => exact Nat.le_of_eq (length_cancelCurrent _).symm
  | _ => exact Nat.le_refl _

theorem Outcome.grace_eq {i : Nat} {failure : Option ProducerError}
    (outcome : Outcome accepts s i failure t effects) : t.grace = s.grace := by
  cases outcome <;> rfl

theorem Move.grace_eq {input : Input γ κ} (move : Move accepts s input t effects) :
    t.grace = s.grace := by
  cases move with
  | skip i due cancelled outcome => exact outcome.grace_eq
  | activated i result runs outcome => exact outcome.grace_eq
  | _ => rfl

theorem grace_run {occasions : List (Occasion γ κ)} : (s.run occasions).1.grace = s.grace := by
  induction occasions generalizing s with
  | nil => rfl
  | cons o rest ih =>
      rw [run_cons]
      exact ih.trans (take_move s o).grace_eq

/-! ## The cache -/

/-- What a step does to the live session and to the cache. -/
inductive Carries (s t : State γ κ) (input : Input γ κ) : Prop
  | ended (current : t.current = none)
  | begun (inactive : s.phase = .inactive) (current : t.current = some s.sessions.length)
      (cache : t.cache = s.cache)
  | kept (current : t.current = s.current) (cache : t.cache = s.cache)
      (other : ∀ i, (input.update? i).isSome = true → s.isCurrent i = false)
  | updated (i : Nat) (f : κ → κ) (asked : input = .update i f) (live : s.isCurrent i = true)
      (current : t.current = s.current) (cache : t.cache = f s.cache)

theorem Outcome.carries {i : Nat} {failure : Option ProducerError}
    (outcome : Outcome accepts s i failure t effects) :
    t.current = none ∨ t.current = s.current ∧ t.cache = s.cache := by
  cases outcome with
  | failed => exact .inl rfl
  | deserted => exact .inl rfl
  | active => exact .inr ⟨rfl, rfl⟩
  | late => exact .inr ⟨rfl, rfl⟩

theorem Move.carries {input : Input γ κ} (move : Move accepts s input t effects) :
    Carries s t input := by
  cases move with
  | refuse _ ignored =>
      refine .kept rfl rfl fun i asked => ?_
      cases input with
      | update j f =>
          by_cases hj : j = i
          · rw [← hj]
            exact ignored
          · simp [Input.update?, hj] at asked
      | _ => cases asked
  | begin c inactive => exact .begun inactive rfl rfl
  | partLast => exact .ended rfl
  | elapse => exact .ended rfl
  | update i f live => exact .updated i f rfl live rfl rfl
  | complete => exact .ended rfl
  | fail => exact .ended rfl
  | skip i due cancelled outcome =>
      rcases outcome.carries with current | ⟨current, cache⟩
      · exact .ended current
      · exact .kept current cache fun _ asked => by cases asked
  | activated i result runs outcome =>
      rcases outcome.carries with current | ⟨current, cache⟩
      · exact .ended current
      · exact .kept current cache fun _ asked => by cases asked
  | drop => exact .ended rfl
  | _ => exact .kept rfl rfl fun _ asked => by cases asked

/-- The cache of a live session is its own work, and a session works on it only once it exists. -/
structure Remembers (s : State γ κ) (past : List (Occasion γ κ)) : Prop where
  live : ∀ i, s.current = some i → s.cache = remembered i past
  unborn : ∀ i, s.sessions.length ≤ i → updates i past = []

theorem remembers_fresh (name : String) (grace : Option Span) :
    Remembers (fresh name grace : State γ κ) [] where
  live _ current := by cases current
  unborn _ _ := rfl

theorem updates_unborn {i : Nat} {past : List (Occasion γ κ)} (h : Remembers s past)
    {o : Occasion γ κ} (admitted : s.admits o.input = true) (unborn : s.sessions.length ≤ i) :
    updates i (past ++ [o]) = [] := by
  rw [updates_append, h.unborn i unborn, List.nil_append, updates_singleton]
  cases hinput : o.input with
  | update j f =>
      have hknown : j < s.sessions.length := by
        apply isKnown_lt
        rwa [hinput] at admitted
      have hne : j ≠ i := by omega
      simp [Input.update?, hne]
  | _ => rfl

theorem Remembers.take {n : Nat} {past : List (Occasion γ κ)} (h : Remembers s past)
    (paced : Paced s n) (manned : Manned s) {o : Occasion γ κ}
    (admitted : s.admits o.input = true) : Remembers (s.take o).1 (past ++ [o]) := by
  have hmove := take_move s o
  constructor
  · intro i current
    cases hmove.carries with
    | ended gone =>
        rw [gone] at current
        cases current
    | begun inactive begun cache =>
        rw [begun] at current
        have hi : s.sessions.length = i := Option.some.inj current
        rw [cache, (manned.inactive inactive).2, remembered,
          updates_unborn h admitted (Nat.le_of_eq hi)]
        rfl
    | kept same cache other =>
        rw [same] at current
        have hlive := (paced.current_eq_some_iff i).mp current
        have hasked : o.input.update? i = none := by
          cases hupdate : o.input.update? i with
          | none => rfl
          | some f => simp [other i (by rw [hupdate]; rfl)] at hlive
        rw [cache, remembered_snoc, hasked, h.live i current]
        rfl
    | updated j f asked live same cache =>
        rw [same] at current
        have hij : j = i := paced.current_unique live ((paced.current_eq_some_iff i).mp current)
        rw [cache, remembered_snoc, h.live i current, asked]
        simp [Input.update?, hij]
  · intro i unborn
    exact updates_unborn h admitted (Nat.le_trans hmove.sessions_le unborn)

/-! ## Whole runs -/

theorem remembers_run {n : Nat} {past occasions : List (Occasion γ κ)} (h : Remembers s past)
    (paced : Paced s n) (manned : Manned s) (orderly : s.orderly occasions = true) :
    Remembers (s.run occasions).1 (past ++ occasions) := by
  induction occasions generalizing s n past with
  | nil =>
      rw [List.append_nil]
      exact h
  | cons o rest ih =>
      rw [orderly_cons] at orderly
      rw [run_cons, List.append_cons]
      have hnext := h.take paced manned orderly.1
      have hmanned : Manned (s.take o).1 := manned.step o.input
      rcases paced.take manned orderly.1 with ⟨hpaced, _⟩ | ⟨hpaced, _⟩
      · exact ih hnext hpaced hmanned orderly.2
      · exact ih hnext hpaced hmanned orderly.2

/-- What holds of a gate with the given settings after the given past.  Consumers are attached to a
session, and only while it lasts; the session finds the cache empty and alone works on it. -/
structure Consistent (settings : RelaySettings) (s : State γ κ) (past : List (Occasion γ κ)) :
    Prop where
  inactive : s.phase = .inactive → s.roster.members = [] ∧ s.cache = default
  draining : s.phase = .draining → s.roster.members = []
  active : s.phase = .active → s.roster.members ≠ []
  hasty : settings.grace = .zero → s.phase ≠ .draining
  stored : s.current.isSome = true ↔ s.phase ≠ .inactive
  uncancelled : (∃ i session, s.current = some i ∧ s.sessions[i]? = some session ∧
    session.cancelled = false) ↔ s.phase ≠ .inactive
  generation : s.generation + (if s.phase = .inactive then 0 else 1) = 2 * s.sessions.length
  attached : s.roster.members ≠ [] → ∃ i, s.isCurrent i = true
  cache : ∀ i, s.isCurrent i = true → s.cache = remembered i past

theorem reachable_states_are_consistent (settings : RelaySettings)
    (occasions : List (Occasion γ κ))
    (orderly : (fresh settings.name settings.gracePeriod : State γ κ).orderly occasions = true) :
    Consistent settings ((fresh settings.name settings.gracePeriod).run occasions).1 occasions := by
  obtain ⟨n, h, manned, _⟩ := paced_run settings.name settings.gracePeriod orderly
  have hcache := remembers_run (remembers_fresh settings.name settings.gracePeriod)
    (paced_fresh _ _) (manned_fresh _ _) orderly
  have hgrace : ((fresh settings.name settings.gracePeriod : State γ κ).run occasions).1.grace =
      settings.gracePeriod := grace_run
  rw [List.nil_append] at hcache
  generalize ((fresh settings.name settings.gracePeriod : State γ κ).run occasions).1 = s
    at h manned hcache hgrace ⊢
  have hlive : s.phase ≠ .inactive ↔ s.phase.isLive = true := by
    simp [Phase.eq_inactive_iff]
  constructor
  · intro inactive
    exact ⟨Roster.isEmpty_iff.mp (manned.inactive inactive).1, (manned.inactive inactive).2⟩
  · intro draining
    exact Roster.isEmpty_iff.mp (manned.draining draining).1
  · intro active hnone
    have hoccupied := manned.active active
    rw [Roster.isEmpty_iff.mpr hnone] at hoccupied
    cases hoccupied
  · intro hzero draining
    have hsome := (manned.draining draining).2
    simp [hgrace, RelaySettings.gracePeriod, hzero, Span.isZero, Span.zero] at hsome
  · rw [hlive, h.current]
    cases s.phase.isLive <;> simp
  · rw [hlive]
    constructor
    · rintro ⟨i, _, current, _⟩
      rw [h.current_eq_some_iff, h.isCurrent_iff] at current
      exact current.1
    · intro live
      have hget := h.sessions s.teardowns.length (by rw [h.count_eq live]; omega)
      refine ⟨s.teardowns.length, _, ?_, hget, ?_⟩
      · rw [h.current, if_pos live]
      · simp [sessionAt]
  · have hcount := h.count
    rw [h.generation]
    cases hphase : s.phase <;> simp [hphase, Phase.isLive] at hcount ⊢ <;> omega
  · intro occupied
    refine ⟨s.teardowns.length, (h.isCurrent_iff _).mpr ⟨hlive.mp fun inactive => ?_, rfl⟩⟩
    exact occupied (Roster.isEmpty_iff.mp (manned.inactive inactive).1)
  · intro i current
    exact hcache.live i ((h.current_eq_some_iff i).mpr current)

/-- The first session lasts through an interrupted grace period and completes while its second one
runs; the second session meets the timer and an update of the first. -/
def revisitedGate : List (Occasion Nat (List Nat)) :=
  [.attach 1, .activate 0, .update 0 (· ++ [5]), .activated 0 .returned, .release 1, .attach 2,
    .update 0 (· ++ [6]), .release 2, .complete 0, .deactivate 0, .attach 3, .drainElapsed 3,
    .update 0 (· ++ [7]), .deactivated 0 none, .activate 1, .update 1 (· ++ [8])].map fun input =>
      { input, accepts := fun _ => true }

theorem revisited_gate_is_consistent :
    (fresh "relay" (some defaultDelay) : State Nat (List Nat)).orderly revisitedGate = true ∧
      ((fresh "relay" (some defaultDelay)).run revisitedGate).1.isCurrent 1 = true ∧
      ((fresh "relay" (some defaultDelay)).run revisitedGate).1.cache = [8] ∧
      Consistent {} ((fresh "relay" (some defaultDelay)).run revisitedGate).1 revisitedGate :=
  ⟨by decide, by decide, by decide, reachable_states_are_consistent {} revisitedGate (by decide)⟩

end State

end Lifecycle.Gate
