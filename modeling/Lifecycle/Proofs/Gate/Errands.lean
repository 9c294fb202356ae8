import Lifecycle.Proofs.Gate.Alternation
import Lifecycle.Proofs.Gate.Consistency

/-!
# What is left to do for a gate

A hook that is to be called and a hook that runs are both outstanding.  A step of the gate adds what
is outstanding only together with the effect that sees to it, and whoever waits for a hook is given
a signal when there is nothing to wait for any more.
-/

namespace Lifecycle.Gate

section Effects

variable {γ κ : Type}

/-- What users ask of a gate. -/
def Input.isRequest : Input γ κ → Bool
  | .attach _ | .release _ | .update _ _ | .complete _ | .fail _ _ => true
  | _ => false

def Input.callsHook : Input γ κ → Bool
  | .activate _ | .deactivate _ => true
  | _ => false

/-- What the tasks of the hooks give a gate, and its drop. -/
def Input.isErrand : Input γ κ → Bool
  | .activate _ | .activated _ _ | .deactivate _ | .deactivated _ _ | .drop => true
  | _ => false

theorem isRequest_of_errand {input : Input γ κ} (errand : input.isErrand = true) :
    input.isRequest = false := by
  cases input <;> first | rfl | cases errand

def State.requests (occasions : List (Occasion γ κ)) : List (Input γ κ) :=
  (occasions.map Occasion.input).filter Input.isRequest

theorem State.requests_append (occasions later : List (Occasion γ κ)) :
    requests (occasions ++ later) = requests occasions ++ requests later := by
  simp only [requests, List.map_append, List.filter_append]

def Effect.start? : Effect γ κ → Option Mark
  | .startActivation i => some (.activate i)
  | .startTeardown j => some (.deactivate j)
  | _ => none

def Effect.call? : Effect γ κ → Option Mark
  | .callActivate i => some (.activated i)
  | .callDeactivate j => some (.deactivated j)
  | _ => none

def Effect.drain? : Effect γ κ → Option (Option (Span × Nat))
  | .beginDrain grace epoch => some (some (grace, epoch))
  | .endDrain => some none
  | _ => none

def starts (effects : List (Effect γ κ)) : List Mark := effects.filterMap Effect.start?

def calls (effects : List (Effect γ κ)) : List Mark := effects.filterMap Effect.call?

def drains (effects : List (Effect γ κ)) : List (Option (Span × Nat)) :=
  effects.filterMap Effect.drain?

@[simp] theorem calls_append (a b : List (Effect γ κ)) : calls (a ++ b) = calls a ++ calls b :=
  List.filterMap_append

@[simp] theorem drains_append (a b : List (Effect γ κ)) : drains (a ++ b) = drains a ++ drains b :=
  List.filterMap_append

theorem starts_cons (e : Effect γ κ) (rest : List (Effect γ κ)) :
    starts (e :: rest) = e.start?.toList ++ starts rest := by
  rw [starts, List.filterMap_cons]
  cases e.start? <;> rfl

theorem drains_cons (e : Effect γ κ) (rest : List (Effect γ κ)) :
    drains (e :: rest) = e.drain?.toList ++ drains rest := by
  rw [drains, List.filterMap_cons]
  cases e.drain? <;> rfl

theorem mem_of_mark {effects : List (Effect γ κ)} {e : Effect γ κ} {m : Mark}
    (only : ∀ d : Effect γ κ, d.mark? = some m → d = e) (marked : marks effects = [m]) :
    e ∈ effects := by
  have hm : m ∈ marks effects := by
    rw [marked]
    exact List.mem_singleton_self m
  obtain ⟨d, hd, hmark⟩ := List.mem_filterMap.mp hm
  rwa [← only d hmark]

variable {effects : List (Effect γ κ)}

theorem mem_calls_of_activate {i : Nat} (marked : marks effects = [.activate i]) :
    .activated i ∈ calls effects := by
  have hcall : .callActivate i ∈ effects := by
    apply mem_of_mark _ marked
    intro d hd
    cases d with
    | callActivate k => simpa [Effect.mark?] using hd
    | signal a => cases a <;> simp [Effect.mark?] at hd
    | _ => cases hd
  exact List.mem_filterMap.mpr ⟨_, hcall, rfl⟩

theorem mem_calls_of_deactivate {j : Nat} (marked : marks effects = [.deactivate j]) :
    .deactivated j ∈ calls effects := by
  have hcall : .callDeactivate j ∈ effects := by
    apply mem_of_mark _ marked
    intro d hd
    cases d with
    | callDeactivate k => simpa [Effect.mark?] using hd
    | signal a => cases a <;> simp [Effect.mark?] at hd
    | _ => cases hd
  exact List.mem_filterMap.mpr ⟨_, hcall, rfl⟩

theorem mem_signal_of_activated {i : Nat} (marked : marks effects = [.activated i]) :
    .signal (.activationOver i) ∈ effects := by
  apply mem_of_mark _ marked
  intro d hd
  cases d with
  | signal a =>
      cases a <;> simp only [Effect.mark?, Option.some.injEq, reduceCtorEq] at hd
      cases hd
      rfl
  | _ => cases hd

theorem mem_signal_of_deactivated {j : Nat} (marked : marks effects = [.deactivated j]) :
    .signal (.teardownOver j) ∈ effects := by
  apply mem_of_mark _ marked
  intro d hd
  cases d with
  | signal a =>
      cases a <;> simp only [Effect.mark?, Option.some.injEq, reduceCtorEq] at hd
      cases hd
      rfl
  | _ => cases hd

theorem calls_offers (members : List γ) (e : ProducerError) :
    calls (members.map (.offer · e) : List (Effect γ κ)) = [] := by
  simp [calls, List.filterMap_map, Effect.call?, Function.comp_def]

theorem calls_closes (members : List γ) :
    calls (members.map .close : List (Effect γ κ)) = [] := by
  simp [calls, List.filterMap_map, Effect.call?, Function.comp_def]

theorem drains_offers (members : List γ) (e : ProducerError) :
    drains (members.map (.offer · e) : List (Effect γ κ)) = [] := by
  simp [drains, List.filterMap_map, Effect.drain?, Function.comp_def]

theorem drains_closes (members : List γ) :
    drains (members.map .close : List (Effect γ κ)) = [] := by
  simp [drains, List.filterMap_map, Effect.drain?, Function.comp_def]

end Effects

namespace State

variable {γ κ : Type}

/-- This beginning or end of a hook is expected of a task. -/
def Outstanding (s : State γ κ) : Mark → Prop
  | .activate i => ∃ session, s.sessions[i]? = some session ∧ session.stage = .waiting
  | .activated i => s.ActivationRuns i
  | .deactivate j => ∃ teardown, s.teardowns[j]? = some teardown ∧ teardown.stage = .waiting
  | .deactivated j => s.TeardownRuns j

def awaits (s : State γ κ) : Mark → List Signal
  | .activate i => s.activationAwaits i
  | .deactivate j => s.teardownAwaits j
  | .activated _ | .deactivated _ => []

namespace Aligned

variable {s : State γ κ} {n : Nat}

theorem outstanding_activate (h : Aligned s n) (i : Nat) :
    s.Outstanding (.activate i) ↔ i < s.sessions.length ∧ n ≤ 4 * i := by
  constructor
  · rintro ⟨session, hget, hwaiting⟩
    obtain ⟨hi, rfl⟩ := h.lt_of_get hget
    have hle := Stage.reached_eq_waiting_iff.mp hwaiting
    exact ⟨hi, by omega⟩
  · rintro ⟨hi, hn⟩
    exact ⟨_, h.sessions i hi, Stage.reached_eq_waiting_iff.mpr (by omega)⟩

theorem outstanding_deactivate (h : Aligned s n) (j : Nat) :
    s.Outstanding (.deactivate j) ↔ j < s.teardowns.length ∧ n ≤ 4 * j + 2 := by
  constructor
  · rintro ⟨teardown, hget, hwaiting⟩
    obtain ⟨hj, rfl⟩ := h.lt_of_get_teardown hget
    have hle := Stage.reached_eq_waiting_iff.mp hwaiting
    exact ⟨hj, by omega⟩
  · rintro ⟨hj, hn⟩
    exact ⟨_, h.teardowns j hj, Stage.reached_eq_waiting_iff.mpr (by omega)⟩

theorem mem_activationAwaits (h : Aligned s n) {i : Nat} (a : Signal) :
    a ∈ s.activationAwaits i ↔
      i < s.sessions.length ∧ ∃ j, i = j + 1 ∧ a = .teardownOver j ∧ n < 4 * j + 4 := by
  by_cases hi : i < s.sessions.length
  · simp only [activationAwaits, h.sessions i hi, sessionAt, List.mem_map, List.mem_filter,
      Option.mem_toList, before_eq_some_iff, Bool.not_eq_true', hi, true_and]
    constructor
    · rintro ⟨j, ⟨hj, hover⟩, rfl⟩
      refine ⟨j, hj, rfl, ?_⟩
      have hteardown := h.teardownOver_iff (j := j) (by have := h.count_le; omega)
      rw [hover] at hteardown
      have hnot : ¬4 * j + 4 ≤ n := fun hle => by cases hteardown.mpr hle
      omega
    · rintro ⟨j, hj, rfl, hn⟩
      refine ⟨j, ⟨hj, ?_⟩, rfl⟩
      rw [Bool.eq_false_iff, ne_eq, h.teardownOver_iff (by have := h.count_le; omega)]
      omega
  · rw [activationAwaits, List.getElem?_eq_none (by omega)]
    simp [hi]

theorem mem_teardownAwaits (h : Aligned s n) {j : Nat} (a : Signal) :
    a ∈ s.teardownAwaits j ↔ j < s.teardowns.length ∧
      (a = .activationOver j ∧ n < 4 * j + 2 ∨
        ∃ k, j = k + 1 ∧ a = .teardownOver k ∧ n < 4 * k + 4) := by
  by_cases hj : j < s.teardowns.length
  · have hcount := h.count
    have hactivation := h.activationOver_iff (i := j) (by omega)
    have hnext (k : Nat) (hk : j = k + 1) := h.teardownOver_iff (j := k) (by omega)
    simp only [teardownAwaits, h.teardowns j hj, teardownAt, List.mem_append, List.mem_map,
      List.mem_filter, Option.mem_toList, before_eq_some_iff, Option.some.injEq,
      Bool.not_eq_true', hj, true_and]
    constructor
    · rintro (⟨i, ⟨rfl, hover⟩, rfl⟩ | ⟨k, ⟨hk, hover⟩, rfl⟩)
      · rw [Bool.eq_false_iff, ne_eq, hactivation] at hover
        exact .inl ⟨rfl, by omega⟩
      · rw [Bool.eq_false_iff, ne_eq, hnext k hk] at hover
        exact .inr ⟨k, hk, rfl, by omega⟩
    · rintro (⟨rfl, hn⟩ | ⟨k, hk, rfl, hn⟩)
      · refine .inl ⟨j, ⟨rfl, ?_⟩, rfl⟩
        rw [Bool.eq_false_iff, ne_eq, hactivation]
        omega
      · refine .inr ⟨k, ⟨hk, ?_⟩, rfl⟩
        rw [Bool.eq_false_iff, ne_eq, hnext k hk]
        omega
  · rw [teardownAwaits, List.getElem?_eq_none (by omega)]
    simp [hj]

end Aligned

theorem isHeld_eq_false {s : State γ κ} (empty : s.roster.isEmpty = true)
    (draining : s.phase ≠ .draining) (done : ∀ m, ¬s.Outstanding m) : s.isHeld = false := by
  have hsessions : s.sessions.any (·.stage != .ended) = false := by
    refine List.any_eq_false.mpr fun session hmem => ?_
    obtain ⟨i, hget⟩ := List.mem_iff_getElem?.mp hmem
    cases hstage : session.stage with
    | waiting => exact absurd ⟨session, hget, hstage⟩ (done (.activate i))
    | running => exact absurd ⟨session, hget, hstage⟩ (done (.activated i))
    | ended => simp
  have hteardowns : s.teardowns.any (·.stage != .ended) = false := by
    refine List.any_eq_false.mpr fun teardown hmem => ?_
    obtain ⟨j, hget⟩ := List.mem_iff_getElem?.mp hmem
    cases hstage : teardown.stage with
    | waiting => exact absurd ⟨teardown, hget, hstage⟩ (done (.deactivate j))
    | running => exact absurd ⟨teardown, hget, hstage⟩ (done (.deactivated j))
    | ended => simp
  simpa [isHeld, empty, hsessions, hteardowns] using draining

/-! ## One step -/

structure Bears (s t : State γ κ) (effects : List (Effect γ κ)) : Prop where
  sessions : t.sessions.length = s.sessions.length ∨
    t.sessions.length = s.sessions.length + 1 ∧ .activate s.sessions.length ∈ starts effects
  teardowns : t.teardowns.length = s.teardowns.length ∨
    t.teardowns.length = s.teardowns.length + 1 ∧ .deactivate s.teardowns.length ∈ starts effects

section Steps

variable {s t : State γ κ} {effects : List (Effect γ κ)}

theorem Bears.none (sessions : t.sessions.length = s.sessions.length)
    (teardowns : t.teardowns.length = s.teardowns.length) : Bears s t effects :=
  ⟨.inl sessions, .inl teardowns⟩

theorem Bears.teardown (sessions : t.sessions.length = s.sessions.length)
    (teardowns : t.teardowns.length = s.teardowns.length + 1)
    (started : .startTeardown s.teardowns.length ∈ effects) : Bears s t effects :=
  ⟨.inl sessions, .inr ⟨teardowns, List.mem_filterMap.mpr ⟨_, started, rfl⟩⟩⟩

theorem Bears.setActivation {i : Nat} {stage : Stage} {a : Effect γ κ}
    (h : Bears (s.setActivation i stage) t effects) : Bears s t (a :: effects) := by
  have hsessions : (s.setActivation i stage).sessions.length = s.sessions.length :=
    List.length_modify _ _ _
  have hteardowns : (s.setActivation i stage).teardowns = s.teardowns := rfl
  have hmore {m : Mark} (hm : m ∈ starts effects) : m ∈ starts (a :: effects) := by
    rw [starts_cons]
    exact List.mem_append_right _ hm
  constructor
  · rcases h.sessions with heq | ⟨heq, hstarted⟩
    · exact .inl (by omega)
    · rw [hsessions] at hstarted
      exact .inr ⟨by omega, hmore hstarted⟩
  · rcases h.teardowns with heq | ⟨heq, hstarted⟩
    · exact .inl (by rw [heq, hteardowns])
    · rw [hteardowns] at heq hstarted
      exact .inr ⟨heq, hmore hstarted⟩

inductive Drains (s t : State γ κ) (effects : List (Effect γ κ)) : Prop
  | kept (phase : t.phase = s.phase) (epoch : t.drainEpoch = s.drainEpoch)
      (quiet : drains effects = [])
  | begun (grace : Span) (patient : s.grace = some grace) (was : s.phase = .active)
      (now : t.phase = .draining) (epoch : t.drainEpoch = s.drainEpoch + 1)
      (quiet : drains effects = [some (grace, s.drainEpoch + 1)])
  | ceased (now : t.phase ≠ .draining) (epoch : s.drainEpoch ≤ t.drainEpoch)
      (ends : ∀ d ∈ drains effects, d = none)

theorem Drains.torn (now : t.phase = .inactive) (epoch : s.drainEpoch ≤ t.drainEpoch)
    (quiet : drains effects = []) : Drains s t effects := by
  refine .ceased ?_ epoch ?_
  · rw [now]
    exact Phase.noConfusion
  · rw [quiet]
    exact fun _ h => absurd h List.not_mem_nil

theorem Drains.epoch_le (h : Drains s t effects) : s.drainEpoch ≤ t.drainEpoch := by
  cases h with
  | kept phase epoch => exact Nat.le_of_eq epoch.symm
  | begun grace patient was now epoch => exact epoch ▸ Nat.le_succ _
  | ceased now epoch => exact epoch

end Steps

variable [Inhabited κ] {accepts : γ → Bool} {s t : State γ κ} {effects : List (Effect γ κ)}

theorem bears_failLive (s : State γ κ) (e : ProducerError) :
    Bears s (s.failLive accepts e).1 (s.failLive accepts e).2 := by
  apply Bears.teardown
  · exact length_cancelCurrent _
  · exact List.length_append
  · simp [failLive]

theorem bears_tearDown (s : State γ κ) {before : List (Effect γ κ)} :
    Bears s s.tearDown.1 (before ++ [.startTeardown s.teardowns.length]) := by
  apply Bears.teardown
  · exact length_cancelCurrent _
  · exact List.length_append
  · simp

theorem Outcome.bears {i : Nat} {failure : Option ProducerError}
    (outcome : Outcome accepts s i failure t effects) : Bears s t effects := by
  cases outcome with
  | failed e => exact bears_failLive s e
  | deserted => exact bears_tearDown s
  | active => exact .none rfl rfl
  | late => exact .none rfl rfl

theorem Move.bears {input : Input γ κ} (move : Move accepts s input t effects) :
    Bears s t effects := by
  cases move with
  | begin =>
      refine ⟨.inr ⟨List.length_append, ?_⟩, .inl rfl⟩
      simp [starts, Effect.start?]
  | partLast =>
      apply Bears.teardown
      · exact length_cancelCurrent _
      · exact List.length_append
      · simp
  | elapse => exact bears_tearDown s
  | complete =>
      apply Bears.teardown
      · exact length_cancelCurrent _
      · exact List.length_append
      · simp
  | fail i e => exact bears_failLive s e
  | call => exact .none (List.length_modify _ _ _) rfl
  | skip i due cancelled outcome => exact outcome.bears.setActivation
  | activated i result runs outcome => exact outcome.bears.setActivation
  | deactivate => exact .none rfl (List.length_modify _ _ _)
  | deactivated => exact .none rfl (List.length_modify _ _ _)
  | drop => exact .none (length_cancelCurrent _) rfl
  | _ => exact .none rfl rfl

theorem Paced.advance {n : Nat} {input : Input γ κ} (h : Paced s n) (manned : Manned s)
    (admitted : s.admits input = true) (move : Move accepts s input t effects) :
    ∃ m, Paced t m ∧ (m = n ∨ m = n + 1 ∧ marks effects = [Mark.nth n]) := by
  rcases h.move manned admitted move with ⟨hnext, _⟩ | ⟨hnext, hmarks⟩
  · exact ⟨n, hnext, .inl rfl⟩
  · exact ⟨n + 1, hnext, .inr ⟨rfl, hmarks⟩⟩

/-- What becomes outstanding is started as a task, or it is the end of the hook that is called. -/
theorem Move.outstanding {n : Nat} {input : Input γ κ} (move : Move accepts s input t effects)
    (h : Paced s n) (manned : Manned s) (admitted : s.admits input = true) {m : Mark}
    (expected : t.Outstanding m) :
    s.Outstanding m ∨ m ∈ starts effects ∨ m ∈ calls effects := by
  obtain ⟨hsessions, hteardowns⟩ := move.bears
  have hrow := h.le_row
  have hhigh := h.pace.high
  obtain ⟨k, hnext, hk⟩ := h.advance manned admitted move
  cases m with
  | activate i =>
      rw [hnext.outstanding_activate] at expected
      rw [h.outstanding_activate]
      by_cases hi : i < s.sessions.length
      · exact .inl ⟨hi, by omega⟩
      · rcases hsessions with hsame | ⟨hmore, hstarted⟩
        · omega
        · have heq : i = s.sessions.length := by omega
          rw [heq]
          exact .inr (.inl hstarted)
  | deactivate j =>
      rw [hnext.outstanding_deactivate] at expected
      rw [h.outstanding_deactivate]
      by_cases hj : j < s.teardowns.length
      · exact .inl ⟨hj, by omega⟩
      · rcases hteardowns with hsame | ⟨hmore, hstarted⟩
        · omega
        · have heq : j = s.teardowns.length := by omega
          rw [heq]
          exact .inr (.inl hstarted)
  | activated i =>
      obtain ⟨hi, hruns⟩ := (hnext.activationRuns_iff i).mp expected
      rcases hk with hsame | ⟨hmore, hmarks⟩
      · exact .inl ((h.activationRuns_iff i).mpr ⟨by omega, by omega⟩)
      · have hn : n = 4 * i := by omega
        rw [hn, Mark.nth_mul] at hmarks
        exact .inr (.inr (mem_calls_of_activate hmarks))
  | deactivated j =>
      obtain ⟨hj, hruns⟩ := (hnext.teardownRuns_iff j).mp expected
      rcases hk with hsame | ⟨hmore, hmarks⟩
      · exact .inl ((h.teardownRuns_iff j).mpr ⟨by omega, by omega⟩)
      · have hn : n = 4 * j + 2 := by omega
        rw [hn, Mark.nth_mul_add_two] at hmarks
        exact .inr (.inr (mem_calls_of_deactivate hmarks))

theorem Move.awaits {n : Nat} {input : Input γ κ} (move : Move accepts s input t effects)
    (h : Paced s n) (manned : Manned s) (admitted : s.admits input = true) {m : Mark} {a : Signal}
    (awaited : a ∈ s.awaits m) : a ∈ t.awaits m ∨ .signal a ∈ effects := by
  obtain ⟨hsessions, hteardowns⟩ := move.bears
  obtain ⟨k, hnext, hk⟩ := h.advance manned admitted move
  have teardown {j : Nat} (hj : n < 4 * j + 4) :
      k < 4 * j + 4 ∨ .signal (.teardownOver j) ∈ effects := by
    rcases hk with hsame | ⟨hmore, hmarks⟩
    · exact .inl (by omega)
    · by_cases hover : n = 4 * j + 3
      · rw [hover, Mark.nth_mul_add_three] at hmarks
        exact .inr (mem_signal_of_deactivated hmarks)
      · exact .inl (by omega)
  cases m with
  | activate i =>
      obtain ⟨hi, j, hj, rfl, hn⟩ := (h.mem_activationAwaits a).mp awaited
      rcases teardown hn with hwaits | htold
      · exact .inl ((hnext.mem_activationAwaits _).mpr ⟨by omega, j, hj, rfl, hwaits⟩)
      · exact .inr htold
  | deactivate j =>
      obtain ⟨hj, ⟨rfl, hn⟩ | ⟨i, hi, rfl, hn⟩⟩ := (h.mem_teardownAwaits a).mp awaited
      · rcases hk with hsame | ⟨hmore, hmarks⟩
        · exact .inl ((hnext.mem_teardownAwaits _).mpr ⟨by omega, .inl ⟨rfl, by omega⟩⟩)
        · by_cases hover : n = 4 * j + 1
          · rw [hover, Mark.nth_mul_add_one] at hmarks
            exact .inr (mem_signal_of_activated hmarks)
          · exact .inl ((hnext.mem_teardownAwaits _).mpr ⟨by omega, .inl ⟨rfl, by omega⟩⟩)
      · rcases teardown hn with hwaits | htold
        · exact .inl ((hnext.mem_teardownAwaits _).mpr ⟨by omega, .inr ⟨i, hi, rfl, hwaits⟩⟩)
        · exact .inr htold
  | activated i => cases awaited
  | deactivated j => cases awaited

@[simp] theorem drains_tearDown (s : State γ κ) : drains s.tearDown.2 = [] := by
  simp only [tearDown]
  cases s.current <;> rfl

theorem drains_failLive (s : State γ κ) (e : ProducerError) :
    drains (s.failLive accepts e).2 = [] := by
  simp only [failLive, drains_append, drains_offers, drains_tearDown]
  split <;> rfl

theorem Outcome.drains {i : Nat} {failure : Option ProducerError}
    (outcome : Outcome accepts s i failure t effects) : Drains s t effects := by
  cases outcome with
  | failed e => exact .torn rfl (Nat.le_succ _) (drains_failLive s e)
  | deserted =>
      refine .torn rfl (Nat.le_succ _) ?_
      rw [drains_append, drains_tearDown]
      rfl
  | active => exact .ceased Phase.noConfusion (Nat.le_refl _) fun _ h => by cases h
  | late => cases failure <;> exact .kept rfl rfl rfl

theorem Move.drains {input : Input γ κ} (move : Move accepts s input t effects) :
    Drains s t effects := by
  cases move with
  | begin => exact .ceased Phase.noConfusion (Nat.le_refl _) fun _ h => by cases h
  | rejoin =>
      refine .ceased Phase.noConfusion (Nat.le_succ _) fun d hd => ?_
      exact List.mem_singleton.mp hd
  | drain id c grace attached last active patient => exact .begun grace patient active rfl rfl rfl
  | partLast =>
      refine .torn rfl (Nat.le_succ _) ?_
      rw [drains_append, drains_append, drains_tearDown]
      rfl
  | elapse =>
      refine .torn rfl (Nat.le_succ _) ?_
      rw [drains_append, drains_tearDown]
      rfl
  | complete =>
      refine .torn rfl (Nat.le_succ _) ?_
      rw [drains_append, drains_append, drains_closes, drains_tearDown]
      rfl
  | fail i e => exact .torn rfl (Nat.le_succ _) (drains_failLive s e)
  | skip i due cancelled outcome =>
      cases outcome.drains with
      | kept phase epoch quiet => exact .kept phase epoch quiet
      | begun grace patient was now epoch quiet => exact .begun grace patient was now epoch quiet
      | ceased now epoch ends => exact .ceased now epoch ends
  | activated i result runs outcome =>
      cases outcome.drains with
      | kept phase epoch quiet => exact .kept phase epoch quiet
      | begun grace patient was now epoch quiet => exact .begun grace patient was now epoch quiet
      | ceased now epoch ends => exact .ceased now epoch ends
  | deactivated j panic => cases panic <;> exact .kept rfl rfl rfl
  | drop =>
      refine .kept rfl rfl ?_
      simp only [State.drop]
      cases s.current <;> rfl
  | _ => exact .kept rfl rfl rfl

theorem Manned.elapsed {epoch : Nat} (h : Manned s)
    (move : Move accepts s (.drainElapsed epoch) t effects) (draining : s.phase = .draining)
    (own : s.drainEpoch = epoch) : t.phase = .inactive := by
  cases move with
  | refuse _ ignored => exact absurd ⟨draining, own, (h.draining draining).1⟩ ignored
  | elapse => rfl

/-! ## Calls of hooks -/

@[simp] theorem calls_tearDown (s : State γ κ) : calls s.tearDown.2 = [] := by
  simp only [tearDown]
  cases s.current <;> rfl

theorem calls_failLive (s : State γ κ) (e : ProducerError) :
    calls (s.failLive accepts e).2 = [] := by
  simp only [failLive, calls_append, calls_offers, calls_tearDown]
  split <;> rfl

theorem Outcome.calls_eq_nil {i : Nat} {failure : Option ProducerError}
    (outcome : Outcome accepts s i failure t effects) : calls effects = [] := by
  cases outcome with
  | failed e => exact calls_failLive s e
  | deserted =>
      rw [calls_append, calls_tearDown]
      rfl
  | active => rfl
  | late => cases failure <;> rfl

theorem Move.calls_eq_nil {input : Input γ κ} (move : Move accepts s input t effects)
    (other : input.callsHook = false) : calls effects = [] := by
  cases move with
  | partLast =>
      rw [calls_append, calls_append, calls_tearDown]
      rfl
  | elapse =>
      rw [calls_append, calls_tearDown]
      rfl
  | complete =>
      rw [calls_append, calls_append, calls_closes, calls_tearDown]
      rfl
  | fail i e => exact calls_failLive s e
  | call => cases other
  | skip => cases other
  | activated i result runs outcome => exact outcome.calls_eq_nil
  | deactivate => cases other
  | deactivated j panic => cases panic <;> rfl
  | drop =>
      simp only [State.drop]
      cases s.current <;> rfl
  | _ => rfl

theorem Move.activate_free {n : Nat} {i : Nat} (move : Move accepts s (.activate i) t effects)
    (h : Paced s n) (free : s.activationAwaits i = []) :
    effects = [.callActivate i] ∧ ¬t.Outstanding (.activate i) ∨
      effects = [] ∧ ¬t.Outstanding (.activate i) := by
  cases move with
  | refuse _ ignored =>
      right
      refine ⟨rfl, ?_⟩
      rintro ⟨session, hget, hwaiting⟩
      exact ignored ⟨session, hget, hwaiting, free⟩
  | call _ due =>
      left
      obtain ⟨_, hn⟩ := (h.activationDue_iff i).mp due
      rw [(h.call due).outstanding_activate]
      exact ⟨rfl, by omega⟩
  | skip _ due cancelled =>
      rw [h.uncancelled_of_due due] at cancelled
      cases cancelled

theorem Move.deactivate_free {n : Nat} {j : Nat} (move : Move accepts s (.deactivate j) t effects)
    (h : Paced s n) (free : s.teardownAwaits j = []) :
    effects = [.callDeactivate j] ∧ ¬t.Outstanding (.deactivate j) ∨
      effects = [] ∧ ¬t.Outstanding (.deactivate j) := by
  cases move with
  | refuse _ ignored =>
      right
      refine ⟨rfl, ?_⟩
      rintro ⟨teardown, hget, hwaiting⟩
      exact ignored ⟨teardown, hget, hwaiting, free⟩
  | deactivate _ due =>
      left
      obtain ⟨hj, hn⟩ := (h.teardownDue_iff j).mp due
      have hrunning : Stage.reached (n + 1) (2 * j + 1) = .running :=
        Stage.reached_eq_running_iff.mpr (by omega)
      rw [(h.setTeardown hj (by omega) hrunning).outstanding_deactivate]
      exact ⟨rfl, by omega⟩

theorem Move.activated_over {n : Nat} {i : Nat} {result : HookEnd}
    (move : Move accepts s (.activated i result) t effects) (h : Paced s n) :
    ¬t.Outstanding (.activated i) := by
  cases move with
  | refuse _ ignored => exact ignored
  | activated _ _ runs outcome =>
      obtain ⟨_, hn⟩ := (h.activationRuns_iff i).mp runs
      intro outstanding
      have hruns := ((h.outcome runs outcome).activationRuns_iff i).mp outstanding
      omega

theorem Move.deactivated_over {n : Nat} {j : Nat} {panic : Option String}
    (move : Move accepts s (.deactivated j panic) t effects) (h : Paced s n) :
    ¬t.Outstanding (.deactivated j) := by
  cases move with
  | refuse _ ignored => exact ignored
  | deactivated _ _ runs =>
      obtain ⟨hj, hn⟩ := (h.teardownRuns_iff j).mp runs
      have hended : Stage.reached (n + 1) (2 * j + 1) = .ended :=
        Stage.reached_eq_ended_iff.mpr (by omega)
      intro outstanding
      have hruns := ((h.setTeardown hj (by omega) hended).teardownRuns_iff j).mp outstanding
      omega

end State

end Lifecycle.Gate
