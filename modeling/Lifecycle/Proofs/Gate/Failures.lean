import Lifecycle.Proofs.Gate.Consumers
import Lifecycle.Proofs.Gate.Pace

/-!
# Where the failures of a gate go

A failure is raised by a session, by its starting hook or by a stopping hook.  It is offered to all
consumers if it comes from the live session and one of them accepts it; otherwise it is reported.
What a run tells about failures is read off its effects.
-/

namespace Lifecycle.Gate

section Effects

variable {γ κ : Type}

def Effect.isFailure : Effect γ κ → Bool
  | .offer _ _ | .report _ => true
  | .publish e => e.kind == .errorReported
  | _ => false

def failures (effects : List (Effect γ κ)) : List (Effect γ κ) := effects.filter Effect.isFailure

def Effect.report? : Effect γ κ → Option ProducerError
  | .report e => some e
  | _ => none

def reports (effects : List (Effect γ κ)) : List ProducerError :=
  effects.filterMap Effect.report?

def Effect.errorEvent? : Effect γ κ → Option Event
  | .publish e => if e.kind = .errorReported then some e else none
  | _ => none

def errorEvents (effects : List (Effect γ κ)) : List Event :=
  effects.filterMap Effect.errorEvent?

@[simp] theorem failures_nil : failures ([] : List (Effect γ κ)) = [] := rfl

@[simp] theorem failures_append (a b : List (Effect γ κ)) :
    failures (a ++ b) = failures a ++ failures b := List.filter_append ..

@[simp] theorem reports_append (a b : List (Effect γ κ)) :
    reports (a ++ b) = reports a ++ reports b := List.filterMap_append

@[simp] theorem errorEvents_append (a b : List (Effect γ κ)) :
    errorEvents (a ++ b) = errorEvents a ++ errorEvents b := List.filterMap_append

theorem reports_failures (effects : List (Effect γ κ)) :
    reports (failures effects) = reports effects := by
  unfold reports failures
  rw [List.filterMap_filter]
  congr 1
  funext effect
  cases effect with
  | publish e => simp [Effect.report?]
  | _ => rfl

theorem errorEvents_failures (effects : List (Effect γ κ)) :
    errorEvents (failures effects) = errorEvents effects := by
  unfold errorEvents failures
  rw [List.filterMap_filter]
  congr 1
  funext effect
  cases effect with
  | publish e =>
      by_cases h : e.kind = .errorReported <;> simp [Effect.isFailure, Effect.errorEvent?, h]
  | _ => rfl

theorem reports_offers (members : List γ) (e : ProducerError) :
    reports (members.map (.offer · e) : List (Effect γ κ)) = [] := by
  induction members with
  | nil => rfl
  | cons c rest ih => exact ih

theorem errorEvents_offers (members : List γ) (e : ProducerError) :
    errorEvents (members.map (.offer · e) : List (Effect γ κ)) = [] := by
  induction members with
  | nil => rfl
  | cons c rest ih => exact ih

theorem failures_offers (members : List γ) (e : ProducerError) :
    failures (members.map (.offer · e) : List (Effect γ κ)) = members.map (.offer · e) := by
  rw [failures, List.filter_eq_self]
  intro effect heffect
  obtain ⟨c, _, rfl⟩ := List.mem_map.mp heffect
  rfl

end Effects

namespace State

variable {γ κ : Type}

def errorEvent (s : State γ κ) (e : ProducerError) : Event :=
  { s.event .errorReported none with error := some e.text }

theorem errorEvent_congr {s t : State γ κ} (h : t.name = s.name) :
    t.errorEvent = s.errorEvent := by
  funext e
  rw [errorEvent, event, h]
  rfl

/-- The failures that an input raises, with the session that raises them.  A stopping hook raises
them for no session. -/
inductive Raises (s : State γ κ) : Input γ κ → Option Nat → ProducerError → Prop
  | fail (i : Nat) (e : ProducerError) : Raises s (.fail i e) (some i) e
  | refused (i : Nat) (e : ProducerError) (runs : s.ActivationRuns i) :
      Raises s (.activated i (.refused e)) (some i) e
  | panicked (i : Nat) (info : String) (runs : s.ActivationRuns i) :
      Raises s (.activated i (.panicked info)) (some i) (.activation ("panicked: " ++ info))
  | stopping (j : Nat) (info : String) (runs : s.TeardownRuns j) :
      Raises s (.deactivated j (some info)) none (.failed ("deactivation panicked: " ++ info))

/-- What becomes of a failure in a step from `s` to `t`.  The live session has failed, which
somebody accepts or nobody does; or the session was over already, and no consumer sees the failure.
-/
inductive Routed (s t : State γ κ) (accepts : γ → Bool) (effects : List (Effect γ κ)) :
    Option Nat → ProducerError → Prop
  | delivered (i : Nat) (e : ProducerError) (current : s.isCurrent i = true)
      (accepted : ∃ c ∈ s.roster.members, accepts c = true)
      (told : failures effects = s.roster.members.map (.offer · e))
      (removed : t.roster.members = []) : Routed s t accepts effects (some i) e
  | refused (i : Nat) (e : ProducerError) (current : s.isCurrent i = true)
      (refused : ∀ c ∈ s.roster.members, accepts c = false)
      (told : failures effects = s.roster.members.map (.offer · e) ++ s.reportEffects e)
      (removed : t.roster.members = []) : Routed s t accepts effects (some i) e
  | stale (i : Nat) (e : ProducerError) (past : s.isCurrent i = false)
      (told : failures effects = s.reportEffects e) (kept : t.roster = s.roster) :
      Routed s t accepts effects (some i) e
  | stopping (e : ProducerError) (told : failures effects = s.reportEffects e)
      (kept : t.roster = s.roster) : Routed s t accepts effects none e

theorem isCurrent_setActivation (s : State γ κ) (i k : Nat) (stage : Stage) :
    (s.setActivation i stage).isCurrent k = s.isCurrent k := by
  simp only [isCurrent, setActivation, List.getElem?_modify]
  cases s.sessions[k]? with
  | none => rfl
  | some session => by_cases h : i = k <;> simp [h]

variable [Inhabited κ] {accepts : γ → Bool} {s t : State γ κ} {effects : List (Effect γ κ)}

@[simp] theorem failures_tearDown (s : State γ κ) : failures s.tearDown.2 = [] := by
  simp only [tearDown]
  cases s.current <;> rfl

theorem failures_failLive (s : State γ κ) (e : ProducerError) :
    failures (s.failLive accepts e).2 =
      s.roster.members.map (.offer · e) ++
        if s.roster.members.any accepts then [] else s.reportEffects e := by
  have hnone : s.roster.members.countP accepts = 0 ↔ s.roster.members.any accepts = false := by
    simp [List.countP_eq_zero]
  simp only [failLive, failures_append, failures_offers, failures_tearDown, List.append_nil]
  cases hany : s.roster.members.any accepts with
  | true =>
      have hsome : s.roster.members.countP accepts ≠ 0 := by
        rw [ne_eq, hnone, hany]
        simp
      rw [if_neg hsome]
      simp [failures, Effect.isFailure, event]
  | false =>
      rw [if_pos (hnone.mpr hany)]
      simp [failures, Effect.isFailure, event, reportEffects]

theorem routed_failLive {i : Nat} (current : s.isCurrent i = true) (e : ProducerError)
    (told : failures effects = failures (s.failLive accepts e).2)
    (removed : t.roster.members = []) : Routed s t accepts effects (some i) e := by
  rw [failures_failLive] at told
  cases hany : s.roster.members.any accepts with
  | true =>
      rw [hany, if_pos rfl, List.append_nil] at told
      exact .delivered i e current (List.any_eq_true.mp hany) told removed
  | false =>
      rw [hany, if_neg (by simp)] at told
      refine .refused i e current (fun c hc => ?_) told removed
      simpa using List.any_eq_false.mp hany c hc

theorem Outcome.routed {n : Nat} (h : Paced s n) {i : Nat} (runs : s.ActivationRuns i)
    {e : ProducerError}
    (outcome : Outcome accepts (s.setActivation i .ended) i (some e) t effects) :
    Routed s t accepts (.signal (.activationOver i) :: effects) (some i) e := by
  cases outcome with
  | failed _ current =>
      rw [isCurrent_setActivation] at current
      exact routed_failLive current e rfl rfl
  | late _ past =>
      have hstale : s.isCurrent i = false := by
        rw [Bool.eq_false_iff]
        intro hcurrent
        obtain ⟨hlive, hi⟩ := (h.isCurrent_iff i).mp hcurrent
        obtain ⟨_, hn⟩ := (h.activationRuns_iff i).mp runs
        have hactivating := h.pace.activating hlive (by omega)
        exact past ⟨by rw [isCurrent_setActivation, hcurrent], hactivating⟩
      exact .stale i e hstale rfl rfl

theorem Move.routed {n : Nat} (h : Paced s n) (present : s.dropped = false) {input : Input γ κ}
    (move : Move accepts s input t effects) {source : Option Nat} {e : ProducerError}
    (raises : Raises s input source e) : Routed s t accepts effects source e := by
  cases raises with
  | fail i e =>
      cases move with
      | refuse _ ignored =>
          rw [ignored.2] at present
          cases present
      | fail _ _ current => exact routed_failLive current e rfl rfl
      | failLate _ _ stale => exact .stale i e stale rfl rfl
  | refused i e runs =>
      cases move with
      | refuse _ ignored => exact absurd runs ignored
      | activated _ _ _ outcome => exact outcome.routed h runs
  | panicked i info runs =>
      cases move with
      | refuse _ ignored => exact absurd runs ignored
      | activated _ _ _ outcome => exact outcome.routed h runs
  | stopping j info runs =>
      cases move with
      | refuse _ ignored => exact absurd runs ignored
      | deactivated => exact .stopping _ rfl rfl

/-! ## Every step -/

def Tells (s : State γ κ) (effects : List (Effect γ κ)) (e : ProducerError) : Prop :=
  ∃ members : List γ, failures effects = members.map (.offer · e) ∨
    failures effects = members.map (.offer · e) ++ s.reportEffects e

theorem tells_failLive {s : State γ κ} {e : ProducerError}
    (told : failures effects = failures (s.failLive accepts e).2) : Tells s effects e := by
  rw [failures_failLive] at told
  refine ⟨s.roster.members, ?_⟩
  cases hany : s.roster.members.any accepts with
  | true =>
      rw [hany, if_pos rfl, List.append_nil] at told
      exact .inl told
  | false =>
      rw [hany, if_neg (by simp)] at told
      exact .inr told

theorem Outcome.silent {i : Nat} (outcome : Outcome accepts s i none t effects) :
    failures effects = [] := by
  cases outcome with
  | deserted => rw [failures_append, failures_tearDown]; rfl
  | active => rfl
  | late => rfl

theorem Outcome.tells {i : Nat} {e : ProducerError}
    (outcome : Outcome accepts s i (some e) t effects) : Tells s effects e := by
  cases outcome with
  | failed => exact tells_failLive rfl
  | late => exact ⟨[], .inr rfl⟩

theorem Move.tells {input : Input γ κ} (move : Move accepts s input t effects) :
    failures effects = [] ∨ ∃ source e, Raises s input source e ∧ Tells s effects e := by
  cases move with
  | refuse => exact .inl rfl
  | begin => exact .inl rfl
  | join => exact .inl rfl
  | rejoin => exact .inl rfl
  | part => exact .inl rfl
  | drain => exact .inl rfl
  | partLast =>
      left
      rw [failures_append, failures_append, failures_tearDown]
      rfl
  | elapse =>
      left
      rw [failures_append, failures_tearDown]
      rfl
  | update => exact .inl rfl
  | complete =>
      left
      have hclosed : failures (s.roster.members.map .close : List (Effect γ κ)) = [] := by
        rw [failures, List.filter_eq_nil_iff]
        intro effect heffect
        obtain ⟨c, _, rfl⟩ := List.mem_map.mp heffect
        simp [Effect.isFailure]
      rw [failures_append, failures_append, hclosed, failures_tearDown]
      rfl
  | fail i e => exact .inr ⟨some i, e, .fail i e, tells_failLive rfl⟩
  | failLate i e => exact .inr ⟨some i, e, .fail i e, [], .inr rfl⟩
  | call => exact .inl rfl
  | skip i due cancelled outcome => exact .inl outcome.silent
  | activated i result runs outcome =>
      cases result with
      | returned => exact .inl outcome.silent
      | refused e => exact .inr ⟨some i, e, .refused i e runs, outcome.tells⟩
      | panicked info => exact .inr ⟨some i, _, .panicked i info runs, outcome.tells⟩
  | deactivate => exact .inl rfl
  | deactivated j panic runs =>
      cases panic with
      | none => exact .inl rfl
      | some info => exact .inr ⟨none, _, .stopping j info runs, [], .inr rfl⟩
  | drop =>
      left
      simp only [State.drop]
      cases s.current <;> rfl

theorem Move.errorEvents_eq {input : Input γ κ} (move : Move accepts s input t effects) :
    errorEvents effects = (reports effects).map s.errorEvent := by
  rw [← errorEvents_failures effects, ← reports_failures effects]
  rcases move.tells with hsilent | ⟨_, e, _, members, htold | htold⟩
  · rw [hsilent]
    rfl
  · rw [htold, errorEvents_offers, reports_offers]
    rfl
  · rw [htold, errorEvents_append, reports_append, errorEvents_offers, reports_offers]
    rfl

theorem Outcome.name_eq {i : Nat} {failure : Option ProducerError}
    (outcome : Outcome accepts s i failure t effects) : t.name = s.name := by
  cases outcome <;> rfl

theorem Move.name_eq {input : Input γ κ} (move : Move accepts s input t effects) :
    t.name = s.name := by
  cases move with
  | skip i due cancelled outcome => exact outcome.name_eq
  | activated i result runs outcome => exact outcome.name_eq
  | _ => rfl

/-! ## Whole runs -/

theorem errorEvents_run {occasions : List (Occasion γ κ)} :
    errorEvents (s.run occasions).2 = (reports (s.run occasions).2).map s.errorEvent := by
  induction occasions generalizing s with
  | nil => rfl
  | cons o rest ih =>
      have hmove := take_move s o
      rw [run_cons, errorEvents_append, reports_append, List.map_append, hmove.errorEvents_eq, ih,
        errorEvent_congr hmove.name_eq]

/-- After a run, a failure that is raised next goes one way.  Every consumer that has come was
offered one failure, or was dismissed, or is still attached; and an event tells of each report. -/
structure Accounted (start : State γ κ) (occasions : List (Occasion γ κ)) : Prop where
  routed : (start.run occasions).1.dropped = false → ∀ o source e,
    Raises (start.run occasions).1 o.input source e →
      Routed (start.run occasions).1 ((start.run occasions).1.take o).1 o.accepts
        ((start.run occasions).1.take o).2 source e
  silent : ∀ o : Occasion γ κ, (∀ source e, ¬Raises (start.run occasions).1 o.input source e) →
    failures ((start.run occasions).1.take o).2 = []
  own : ∀ i, (start.run occasions).1.isCurrent i = true →
    ∃ earlier later, occasions = earlier ++ later ∧ (start.run earlier).1.phase = .inactive ∧
      (start.run earlier).1.sessions.length = i ∧
      (start.run occasions).1.roster.members.Sublist (attached later)
  once : (offered (start.run occasions).2 ++ dismissed (start.run occasions).2 ++
    (start.run occasions).1.roster.members).Perm (attached occasions)
  told : errorEvents (start.run occasions).2 = (reports (start.run occasions).2).map fun e =>
    { kind := .errorReported, source := some start.name, error := some e.text }

theorem failures_have_one_destination (name : String) (grace : Option Span)
    (occasions : List (Occasion γ κ))
    (orderly : (fresh name grace : State γ κ).orderly occasions = true) :
    Accounted (fresh name grace) occasions := by
  obtain ⟨n, h, _, _⟩ := paced_run name grace orderly
  constructor
  · intro present o source e raises
    exact (take_move _ o).routed h present raises
  · intro o quiet
    rcases (take_move _ o).tells with hsilent | ⟨source, e, hraises, _⟩
    · exact hsilent
    · exact absurd hraises (quiet source e)
  · intro i current
    obtain ⟨hlive, hi⟩ := (h.isCurrent_iff i).mp current
    have hcount := h.count_eq hlive
    rcases since_run (manned_fresh name grace) hlive with ⟨hstart, _⟩ | hbegun
    · cases hstart
    · obtain ⟨earlier, later, hsplit, hinactive, hlength, hmembers⟩ := hbegun
      exact ⟨earlier, later, hsplit, hinactive, by omega, hmembers⟩
  · exact conserves_run Roster.numbered_empty
  · exact errorEvents_run

/-- The first session fails for two consumers, then its starting hook and its stopping hook fail,
while a third consumer waits for the second session, whose starting hook panics. -/
def troubledHandover : List (Occasion Nat Unit) :=
  [.attach 1, .attach 2, .activate 0, .fail 0 (.failed "lost"), .attach 3,
    .activated 0 (.refused (.failed "late")), .deactivate 0, .deactivated 0 (some "stuck"),
    .activate 1, .activated 1 (.panicked "broken")].map fun input =>
      { input, accepts := fun c => c == 2 }

theorem failures_of_troubled_handover :
    (fresh "gate" none : State Nat Unit).orderly troubledHandover = true ∧
      offered ((fresh "gate" none : State Nat Unit).run troubledHandover).2 = [1, 2, 3] ∧
      (reports ((fresh "gate" none : State Nat Unit).run troubledHandover).2).length = 3 ∧
      Accounted (fresh "gate" none : State Nat Unit) troubledHandover :=
  ⟨by decide, by decide, by decide,
    failures_have_one_destination "gate" none troubledHandover (by decide)⟩

end State

end Lifecycle.Gate
