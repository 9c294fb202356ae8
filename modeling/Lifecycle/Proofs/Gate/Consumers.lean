import Lifecycle.Proofs.Gate.Phases

/-!
# How consumers come and go

Each consumer that comes is later offered a failure, or dismissed, or still there, and only one of
the three.  The consumers of a live session came while it was live.
-/

namespace Lifecycle.Gate

section Effects

variable {γ κ : Type}

def Effect.offered? : Effect γ κ → Option γ
  | .offer c _ => some c
  | _ => none

def offered (effects : List (Effect γ κ)) : List γ := effects.filterMap Effect.offered?

def Effect.dismissed? : Effect γ κ → Option γ
  | .close c | .part c => some c
  | _ => none

def dismissed (effects : List (Effect γ κ)) : List γ := effects.filterMap Effect.dismissed?

def Input.attached? : Input γ κ → Option γ
  | .attach c => some c
  | _ => none

def attached (occasions : List (Occasion γ κ)) : List γ :=
  occasions.filterMap fun o => o.input.attached?

@[simp] theorem offered_append (a b : List (Effect γ κ)) :
    offered (a ++ b) = offered a ++ offered b := List.filterMap_append

@[simp] theorem dismissed_append (a b : List (Effect γ κ)) :
    dismissed (a ++ b) = dismissed a ++ dismissed b := List.filterMap_append

theorem offered_offers (members : List γ) (e : ProducerError) :
    offered (members.map (.offer · e) : List (Effect γ κ)) = members := by
  induction members with
  | nil => rfl
  | cons c rest ih => exact congrArg (c :: ·) ih

theorem dismissed_offers (members : List γ) (e : ProducerError) :
    dismissed (members.map (.offer · e) : List (Effect γ κ)) = [] := by
  induction members with
  | nil => rfl
  | cons c rest ih => exact ih

theorem offered_closes (members : List γ) :
    offered (members.map .close : List (Effect γ κ)) = [] := by
  induction members with
  | nil => rfl
  | cons c rest ih => exact ih

theorem dismissed_closes (members : List γ) :
    dismissed (members.map .close : List (Effect γ κ)) = members := by
  induction members with
  | nil => rfl
  | cons c rest ih => exact congrArg (c :: ·) ih

theorem attached_cons (o : Occasion γ κ) (rest : List (Occasion γ κ)) :
    attached (o :: rest) = o.input.attached?.toList ++ attached rest := by
  unfold attached
  rw [List.filterMap_cons]
  cases o.input.attached? <;> rfl

end Effects

namespace State

variable {γ κ : Type}

/-- The consumers that were there or come are offered a failure, dismissed or kept. -/
def Conserves (s t : State γ κ) (effects : List (Effect γ κ)) (coming : List γ) : Prop :=
  (offered effects ++ dismissed effects ++ t.roster.members).Perm (s.roster.members ++ coming)

namespace Conserves

variable {s t : State γ κ} {effects : List (Effect γ κ)}

theorem kept {coming : List γ} (hoffered : offered effects = [])
    (hdismissed : dismissed effects = []) (kept : t.roster.members = s.roster.members ++ coming) :
    Conserves s t effects coming := by
  rw [Conserves, hoffered, hdismissed, kept]
  exact List.Perm.refl _

theorem parted {id : ConsumerId} {c : γ} (numbered : s.roster.Numbered)
    (attached : s.roster.find? id = some c) (hoffered : offered effects = [])
    (hdismissed : dismissed effects = [c]) (erased : t.roster = s.roster.erase id) :
    Conserves s t effects [] := by
  rw [Conserves, hoffered, hdismissed, erased, List.append_nil]
  exact (numbered.members_perm attached).symm

theorem cleared (gone : offered effects ++ dismissed effects = s.roster.members)
    (empty : t.roster.members = []) : Conserves s t effects [] := by
  rw [Conserves, gone, empty]

theorem perm_append_swap (a b c d : List γ) : (a ++ b ++ (c ++ d)).Perm (a ++ c ++ (b ++ d)) := by
  rw [List.append_assoc, List.append_assoc]
  exact (List.perm_append_comm_assoc b c d).append_left a

theorem trans {u : State γ κ} {later : List (Effect γ κ)} {coming still : List γ}
    (h₁ : Conserves s t effects coming) (h₂ : Conserves t u later still) :
    Conserves s u (effects ++ later) (coming ++ still) := by
  unfold Conserves at h₁ h₂ ⊢
  rw [offered_append, dismissed_append, ← List.append_assoc s.roster.members]
  calc
    List.Perm _ (offered effects ++ dismissed effects ++ (offered later ++ dismissed later) ++
        u.roster.members) := (perm_append_swap _ _ _ _).append_right _
    _ = offered effects ++ dismissed effects ++
        (offered later ++ dismissed later ++ u.roster.members) := List.append_assoc _ _ _
    List.Perm _ (offered effects ++ dismissed effects ++ (t.roster.members ++ still)) :=
      h₂.append_left _
    _ = offered effects ++ dismissed effects ++ t.roster.members ++ still :=
      (List.append_assoc _ _ _).symm
    List.Perm _ (s.roster.members ++ coming ++ still) := h₁.append_right _

end Conserves

theorem length_cancelCurrent (s : State γ κ) : s.cancelCurrent.length = s.sessions.length := by
  unfold cancelCurrent
  cases s.current with
  | none => rfl
  | some i => exact List.length_modify _ _ _

variable [Inhabited κ] {accepts : γ → Bool} {s t : State γ κ} {effects : List (Effect γ κ)}

@[simp] theorem offered_tearDown (s : State γ κ) : offered s.tearDown.2 = [] := by
  simp only [tearDown]
  cases s.current <;> rfl

@[simp] theorem dismissed_tearDown (s : State γ κ) : dismissed s.tearDown.2 = [] := by
  simp only [tearDown]
  cases s.current <;> rfl

theorem conserves_failLive {s : State γ κ} {e : ProducerError} :
    Conserves s (s.failLive accepts e).1 (s.failLive accepts e).2 [] := by
  have hoffered : offered (s.failLive accepts e).2 = s.roster.members := by
    simp only [failLive, offered_append, offered_offers, offered_tearDown]
    split <;> simp [offered, Effect.offered?, reportEffects]
  have hdismissed : dismissed (s.failLive accepts e).2 = [] := by
    simp only [failLive, dismissed_append, dismissed_offers, dismissed_tearDown]
    split <;> rfl
  apply Conserves.cleared
  · rw [hoffered, hdismissed, List.append_nil]
  · rfl

theorem Outcome.conserves {i : Nat} {failure : Option ProducerError}
    (outcome : Outcome accepts s i failure t effects) : Conserves s t effects [] := by
  cases outcome with
  | failed => exact conserves_failLive
  | deserted =>
      apply Conserves.kept
      · rw [offered_append, offered_tearDown]
        rfl
      · rw [dismissed_append, dismissed_tearDown]
        rfl
      · exact (List.append_nil _).symm
  | active => exact .kept rfl rfl (List.append_nil _).symm
  | late => cases failure <;> exact .kept rfl rfl (List.append_nil _).symm

theorem Move.conserves {input : Input γ κ} (move : Move accepts s input t effects)
    (numbered : s.roster.Numbered) : Conserves s t effects input.attached?.toList := by
  cases move with
  | refuse _ ignored =>
      cases input with
      | attach c => exact absurd ignored id
      | _ => exact .kept rfl rfl (List.append_nil _).symm
  | begin c => exact .kept rfl rfl (Roster.members_insert _ c)
  | join c => exact .kept rfl rfl (Roster.members_insert _ c)
  | rejoin c => exact .kept rfl rfl (Roster.members_insert _ c)
  | part id c attached => exact .parted numbered attached rfl rfl rfl
  | drain id c grace attached => exact .parted numbered attached rfl rfl rfl
  | partLast id c attached =>
      apply Conserves.parted numbered attached
      · rw [offered_append, offered_append, offered_tearDown]
        rfl
      · rw [dismissed_append, dismissed_append, dismissed_tearDown]
        rfl
      · rfl
  | elapse =>
      apply Conserves.kept
      · rw [offered_append, offered_tearDown]
        rfl
      · rw [dismissed_append, dismissed_tearDown]
        rfl
      · exact (List.append_nil _).symm
  | update => exact .kept rfl rfl (List.append_nil _).symm
  | complete =>
      apply Conserves.cleared
      · simp only [offered_append, offered_closes, offered_tearDown, dismissed_append,
          dismissed_closes, dismissed_tearDown]
        change [] ++ [] ++ [] ++ (s.roster.members ++ [] ++ []) = s.roster.members
        simp
      · rfl
  | fail => exact conserves_failLive
  | failLate => exact .kept rfl rfl (List.append_nil _).symm
  | call => exact .kept rfl rfl (List.append_nil _).symm
  | skip i due cancelled outcome => exact outcome.conserves
  | activated i result runs outcome => exact outcome.conserves
  | deactivate => exact .kept rfl rfl (List.append_nil _).symm
  | deactivated j panic => cases panic <;> exact .kept rfl rfl (List.append_nil _).symm
  | drop =>
      simp only [State.drop]
      cases s.current <;> exact .kept rfl rfl (List.append_nil _).symm

/-- The live session of `t` is that of `s`, or it began in the step; its consumers were there or
came in the step. -/
def Since (s t : State γ κ) (coming : List γ) : Prop :=
  s.phase.isLive = true ∧ t.sessions.length = s.sessions.length ∧
      t.roster.members.Sublist (s.roster.members ++ coming) ∨
    s.phase = .inactive ∧ t.sessions.length = s.sessions.length + 1 ∧
      t.roster.members.Sublist coming

theorem Outcome.since {i : Nat} {failure : Option ProducerError}
    (outcome : Outcome accepts s i failure t effects) (live : t.phase.isLive = true) :
    Since s t [] := by
  cases outcome with
  | failed => cases live
  | deserted => cases live
  | active _ activating =>
      left
      rw [activating]
      exact ⟨rfl, rfl, List.sublist_append_left _ _⟩
  | late => exact .inl ⟨live, rfl, List.sublist_append_left _ _⟩

theorem Move.since {input : Input γ κ} (move : Move accepts s input t effects) (manned : Manned s)
    (live : t.phase.isLive = true) : Since s t input.attached?.toList := by
  have hsame {coming : List γ} : s.roster.members.Sublist (s.roster.members ++ coming) :=
    List.sublist_append_left _ _
  have hless {id : ConsumerId} {coming : List γ} :
      (s.roster.erase id).members.Sublist (s.roster.members ++ coming) :=
    (Roster.members_erase_sublist _ id).trans hsame
  cases move with
  | refuse => exact .inl ⟨live, rfl, hsame⟩
  | begin c inactive =>
      have hempty := Roster.isEmpty_iff.mp (manned.inactive inactive).1
      right
      refine ⟨inactive, List.length_append, ?_⟩
      simp only [beginSession, Roster.members_insert, hempty]
      exact List.Sublist.refl _
  | join c =>
      left
      refine ⟨live, rfl, ?_⟩
      rw [Roster.members_insert]
      exact List.Sublist.refl _
  | rejoin c draining =>
      left
      refine ⟨by rw [draining]; rfl, rfl, ?_⟩
      simp only [Roster.members_insert]
      exact List.Sublist.refl _
  | part => exact .inl ⟨live, rfl, hless⟩
  | drain id c grace attached last active => exact .inl ⟨by rw [active]; rfl, rfl, hless⟩
  | partLast => cases live
  | elapse => cases live
  | update => exact .inl ⟨live, rfl, hsame⟩
  | complete => cases live
  | fail => cases live
  | failLate => exact .inl ⟨live, rfl, hsame⟩
  | call => exact .inl ⟨live, List.length_modify _ _ _, hsame⟩
  | skip i due cancelled outcome =>
      have hsince := outcome.since live
      rwa [Since, setActivation, List.length_modify] at hsince
  | activated i result runs outcome =>
      have hsince := outcome.since live
      rwa [Since, setActivation, List.length_modify] at hsince
  | deactivate => exact .inl ⟨live, rfl, hsame⟩
  | deactivated => exact .inl ⟨live, rfl, hsame⟩
  | drop => exact .inl ⟨live, length_cancelCurrent s, hsame⟩

/-! ## Whole runs -/

/-- Nobody gets lost, and nobody is offered a failure twice or after being dismissed. -/
theorem conserves_run {occasions : List (Occasion γ κ)} (numbered : s.roster.Numbered) :
    Conserves s (s.run occasions).1 (s.run occasions).2 (attached occasions) := by
  induction occasions generalizing s with
  | nil => exact .kept rfl rfl (List.append_nil _).symm
  | cons o rest ih =>
      have hmove := take_move s o
      rw [run_cons, attached_cons]
      exact (hmove.conserves numbered).trans (ih (hmove.numbered numbered))

theorem since_run {occasions : List (Occasion γ κ)} (manned : Manned s)
    (live : (s.run occasions).1.phase.isLive = true) :
    (s.phase.isLive = true ∧ (s.run occasions).1.sessions.length = s.sessions.length ∧
      (s.run occasions).1.roster.members.Sublist (s.roster.members ++ attached occasions)) ∨
    ∃ earlier later, occasions = earlier ++ later ∧ (s.run earlier).1.phase = .inactive ∧
      (s.run occasions).1.sessions.length = (s.run earlier).1.sessions.length + 1 ∧
      (s.run occasions).1.roster.members.Sublist (attached later) := by
  induction occasions generalizing s with
  | nil => exact .inl ⟨live, rfl, List.sublist_append_left _ _⟩
  | cons o rest ih =>
      rw [run_cons] at live ⊢
      rw [attached_cons]
      have hmove := take_move s o
      rcases ih (manned.step o.input) live with ⟨hnow, hcount, hmembers⟩ | hbegun
      · rcases hmove.since manned hnow with ⟨hlive, hsame, hkept⟩ | ⟨hinactive, hmore, hcame⟩
        · left
          refine ⟨hlive, hcount.trans hsame, hmembers.trans ?_⟩
          rw [← List.append_assoc]
          exact hkept.append_right _
        · right
          refine ⟨[], o :: rest, rfl, hinactive, hcount.trans hmore, hmembers.trans ?_⟩
          rw [attached_cons]
          exact hcame.append_right _
      · obtain ⟨earlier, later, hsplit, hinactive, hcount, hmembers⟩ := hbegun
        right
        refine ⟨o :: earlier, later, ?_, ?_, ?_, hmembers⟩
        · rw [hsplit, List.cons_append]
        · rw [run_cons]
          exact hinactive
        · rw [run_cons]
          exact hcount

end State

end Lifecycle.Gate
