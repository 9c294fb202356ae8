import Lifecycle.Proofs.Gate.Phases
import Lifecycle.Proofs.Gate.Row

/-!
# The pace of a gate

The number of beginnings and ends of hooks so far fixes what every session and every teardown looks
like; `Aligned` says how.  Where in the row a gate can be depends on its phase too, and `Paced` adds
that.  Every step either keeps the number or moves it on by one.
-/

namespace Lifecycle.Gate

namespace State

variable {γ κ : Type}

def sessionAt (t n i : Nat) : Session :=
  { generation := 2 * i + 1, cancelled := decide (i < t), after := before i,
    stage := .reached n (2 * i) }

def teardownAt (n j : Nat) : Teardown :=
  { session := some j, after := before j, stage := .reached n (2 * j + 1) }

/-- After `n` beginnings and ends of hooks, the sessions and teardowns are as the row has them. -/
structure Aligned (s : State γ κ) (n : Nat) : Prop where
  count : s.sessions.length = s.teardowns.length + if s.phase.isLive then 1 else 0
  sessions : ∀ i < s.sessions.length, s.sessions[i]? = some (sessionAt s.teardowns.length n i)
  teardowns : ∀ j < s.teardowns.length, s.teardowns[j]? = some (teardownAt n j)
  current : s.current = if s.phase.isLive then some s.teardowns.length else none
  lastTeardown : s.lastTeardown = before s.teardowns.length
  generation : s.generation = s.sessions.length + s.teardowns.length
  dropped : s.dropped = true → s.phase = .inactive

/-- Where in the row a gate in the given phase can be when `t` teardowns have begun. -/
def InPace (t n : Nat) : Phase → Prop
  | .inactive => 4 * t ≤ n + 3 ∧ n ≤ 4 * t
  | .activating => 4 * t ≤ n + 3 ∧ n ≤ 4 * t + 1
  | .active | .draining => n = 4 * t + 2

namespace InPace

variable {t n : Nat} {phase : Phase}

theorem low (h : InPace t n phase) : 4 * t ≤ n + 3 := by
  cases phase <;> simp only [InPace] at h <;> omega

theorem high (h : InPace t n phase) : n ≤ 4 * t + 2 := by
  cases phase <;> simp only [InPace] at h <;> omega

theorem activating (h : InPace t n phase) (live : phase.isLive = true) (early : n ≤ 4 * t + 1) :
    phase = .activating := by
  cases phase with
  | inactive => cases live
  | activating => rfl
  | active =>
      simp only [InPace] at h
      omega
  | draining =>
      simp only [InPace] at h
      omega

theorem next (h : InPace t n phase) (early : n < 4 * t ∨ n = 4 * t ∧ phase = .activating) :
    InPace t (n + 1) phase := by
  cases phase with
  | inactive =>
      simp only [InPace] at h ⊢
      rcases early with early | ⟨_, hphase⟩
      · omega
      · cases hphase
  | activating =>
      simp only [InPace] at h ⊢
      omega
  | active =>
      simp only [InPace] at h
      omega
  | draining =>
      simp only [InPace] at h
      omega

end InPace

structure Paced (s : State γ κ) (n : Nat) : Prop extends Aligned s n where
  pace : InPace s.teardowns.length n s.phase

theorem paced_fresh [Inhabited κ] (name : String) (grace : Option Span) :
    Paced (fresh name grace : State γ κ) 0 where
  count := rfl
  sessions i hi := absurd hi (Nat.not_lt_zero i)
  teardowns j hj := absurd hj (Nat.not_lt_zero j)
  current := rfl
  lastTeardown := rfl
  generation := rfl
  dropped _ := rfl
  pace := ⟨Nat.zero_le _, Nat.le_refl _⟩

namespace Aligned

variable {s t : State γ κ} {n : Nat}

theorem count_le (h : Aligned s n) : s.sessions.length ≤ s.teardowns.length + 1 := by
  rw [h.count]
  split <;> omega

theorem count_eq (h : Aligned s n) (live : s.phase.isLive = true) :
    s.sessions.length = s.teardowns.length + 1 := by
  rw [h.count, if_pos live]

theorem live_of_le (h : Aligned s n) {i : Nat} (hi : i < s.sessions.length)
    (hle : s.teardowns.length ≤ i) : s.phase.isLive = true ∧ i = s.teardowns.length := by
  have hcount := h.count
  cases hlive : s.phase.isLive with
  | false =>
      rw [hlive, if_neg (by simp)] at hcount
      omega
  | true =>
      rw [hlive, if_pos rfl] at hcount
      exact ⟨rfl, by omega⟩

theorem lt_of_get (h : Aligned s n) {i : Nat} {session : Session}
    (get : s.sessions[i]? = some session) :
    i < s.sessions.length ∧ session = sessionAt s.teardowns.length n i := by
  have hi : i < s.sessions.length := (List.getElem?_eq_some_iff.mp get).1
  have hsession := h.sessions i hi
  rw [get] at hsession
  exact ⟨hi, Option.some.inj hsession⟩

theorem lt_of_get_teardown (h : Aligned s n) {j : Nat} {teardown : Teardown}
    (get : s.teardowns[j]? = some teardown) :
    j < s.teardowns.length ∧ teardown = teardownAt n j := by
  have hj : j < s.teardowns.length := (List.getElem?_eq_some_iff.mp get).1
  have hteardown := h.teardowns j hj
  rw [get] at hteardown
  exact ⟨hj, Option.some.inj hteardown⟩

theorem activationOver_iff (h : Aligned s n) {i : Nat} (hi : i < s.sessions.length) :
    s.activationOver i = true ↔ 4 * i + 2 ≤ n := by
  simp only [activationOver, h.sessions i hi, sessionAt, beq_iff_eq, Stage.reached_eq_ended_iff]
  omega

theorem teardownOver_iff (h : Aligned s n) {j : Nat} (hj : j < s.teardowns.length) :
    s.teardownOver j = true ↔ 4 * j + 4 ≤ n := by
  simp only [teardownOver, h.teardowns j hj, teardownAt, beq_iff_eq, Stage.reached_eq_ended_iff]
  omega

theorem activationAwaits_eq_nil_iff (h : Aligned s n) {i : Nat} (hi : i < s.sessions.length) :
    s.activationAwaits i = [] ↔ 4 * i ≤ n := by
  simp only [activationAwaits, h.sessions i hi, sessionAt, List.map_eq_nil_iff]
  cases i with
  | zero => simp [before]
  | succ i =>
      have hover := h.teardownOver_iff (j := i) (by have := h.count_le; omega)
      simp only [before, Option.toList_some, List.filter_eq_nil_iff, List.mem_singleton,
        forall_eq, Bool.not_eq_true', Bool.not_eq_false, hover]
      omega

theorem teardownAwaits_eq_nil_iff (h : Aligned s n) {j : Nat} (hj : j < s.teardowns.length) :
    s.teardownAwaits j = [] ↔ 4 * j + 2 ≤ n := by
  have hactivation := h.activationOver_iff (i := j) (by have := h.count; omega)
  simp only [teardownAwaits, h.teardowns j hj, teardownAt, List.append_eq_nil_iff,
    List.map_eq_nil_iff, Option.toList_some, List.filter_eq_nil_iff, List.mem_singleton,
    forall_eq, Bool.not_eq_true', Bool.not_eq_false, hactivation]
  constructor
  · exact And.left
  · intro hle
    refine ⟨hle, fun k hk => ?_⟩
    have hk : j = k + 1 := before_eq_some_iff.mp (by simpa using hk)
    rw [h.teardownOver_iff (by omega)]
    omega

theorem activationDue_iff (h : Aligned s n) (i : Nat) :
    s.ActivationDue i ↔ i < s.sessions.length ∧ n = 4 * i := by
  constructor
  · rintro ⟨session, hget, hwaiting, hfree⟩
    obtain ⟨hi, rfl⟩ := h.lt_of_get hget
    have hlow := (h.activationAwaits_eq_nil_iff hi).mp hfree
    have hhigh := Stage.reached_eq_waiting_iff.mp hwaiting
    exact ⟨hi, by omega⟩
  · rintro ⟨hi, hn⟩
    refine ⟨_, h.sessions i hi, ?_, ?_⟩
    · exact Stage.reached_eq_waiting_iff.mpr (by omega)
    · exact (h.activationAwaits_eq_nil_iff hi).mpr (by omega)

theorem activationRuns_iff (h : Aligned s n) (i : Nat) :
    s.ActivationRuns i ↔ i < s.sessions.length ∧ n = 4 * i + 1 := by
  constructor
  · rintro ⟨session, hget, hrunning⟩
    obtain ⟨hi, rfl⟩ := h.lt_of_get hget
    have hn := Stage.reached_eq_running_iff.mp hrunning
    exact ⟨hi, by omega⟩
  · rintro ⟨hi, hn⟩
    exact ⟨_, h.sessions i hi, Stage.reached_eq_running_iff.mpr (by omega)⟩

theorem teardownDue_iff (h : Aligned s n) (j : Nat) :
    s.TeardownDue j ↔ j < s.teardowns.length ∧ n = 4 * j + 2 := by
  constructor
  · rintro ⟨teardown, hget, hwaiting, hfree⟩
    obtain ⟨hj, rfl⟩ := h.lt_of_get_teardown hget
    have hlow := (h.teardownAwaits_eq_nil_iff hj).mp hfree
    have hhigh := Stage.reached_eq_waiting_iff.mp hwaiting
    exact ⟨hj, by omega⟩
  · rintro ⟨hj, hn⟩
    refine ⟨_, h.teardowns j hj, ?_, ?_⟩
    · exact Stage.reached_eq_waiting_iff.mpr (by omega)
    · exact (h.teardownAwaits_eq_nil_iff hj).mpr (by omega)

theorem teardownRuns_iff (h : Aligned s n) (j : Nat) :
    s.TeardownRuns j ↔ j < s.teardowns.length ∧ n = 4 * j + 3 := by
  constructor
  · rintro ⟨teardown, hget, hrunning⟩
    obtain ⟨hj, rfl⟩ := h.lt_of_get_teardown hget
    have hn := Stage.reached_eq_running_iff.mp hrunning
    exact ⟨hj, by omega⟩
  · rintro ⟨hj, hn⟩
    exact ⟨_, h.teardowns j hj, Stage.reached_eq_running_iff.mpr (by omega)⟩

theorem isKnown_iff (h : Aligned s n) (i : Nat) :
    s.isKnown i = true ↔ i < s.sessions.length ∧ 4 * i + 1 ≤ n := by
  unfold isKnown
  by_cases hi : i < s.sessions.length
  · have hwaiting := Stage.reached_eq_waiting_iff (n := n) (h := 2 * i)
    simp only [h.sessions i hi, sessionAt, bne_iff_ne, ne_eq, hwaiting, hi, true_and]
    omega
  · rw [List.getElem?_eq_none (by omega)]
    simp [hi]

theorem isCancelled_iff (h : Aligned s n) (i : Nat) :
    s.isCancelled i = true ↔ i < s.teardowns.length := by
  unfold isCancelled
  by_cases hi : i < s.sessions.length
  · simp [h.sessions i hi, sessionAt]
  · have hcount := h.count
    rw [List.getElem?_eq_none (by omega)]
    simp only [Bool.false_eq_true, false_iff]
    omega

theorem not_dropped (h : Aligned s n) (live : s.phase.isLive = true) : s.dropped = false := by
  cases hdropped : s.dropped with
  | false => rfl
  | true =>
      rw [h.dropped hdropped] at live
      cases live

theorem isCurrent_iff (h : Aligned s n) (i : Nat) :
    s.isCurrent i = true ↔ s.phase.isLive = true ∧ i = s.teardowns.length := by
  cases hlive : s.phase.isLive with
  | false => simp [isCurrent_eq_false hlive]
  | true =>
      have hcount := h.count_eq hlive
      unfold isCurrent
      by_cases hi : i < s.sessions.length
      · simp only [h.sessions i hi, sessionAt, h.not_dropped hlive, h.generation, hlive,
          Bool.and_true, Bool.not_false, Bool.true_and, beq_iff_eq, true_and]
        omega
      · rw [List.getElem?_eq_none (by omega)]
        simp only [Bool.false_eq_true, false_iff, true_and]
        omega

theorem alike (h : Aligned s n) (sessions : t.sessions = s.sessions)
    (teardowns : t.teardowns = s.teardowns) (current : t.current = s.current)
    (lastTeardown : t.lastTeardown = s.lastTeardown) (generation : t.generation = s.generation)
    (dropped : t.dropped = s.dropped) (live : t.phase.isLive = s.phase.isLive) :
    Aligned t n where
  count := by rw [sessions, teardowns, live, h.count]
  sessions i hi := by
    rw [sessions] at hi ⊢
    rw [teardowns]
    exact h.sessions i hi
  teardowns j hj := by
    rw [teardowns] at hj ⊢
    exact h.teardowns j hj
  current := by rw [current, live, teardowns, h.current]
  lastTeardown := by rw [lastTeardown, teardowns, h.lastTeardown]
  generation := by rw [generation, sessions, teardowns, h.generation]
  dropped hdropped := by
    rw [dropped] at hdropped
    rw [Phase.eq_inactive_iff, live, ← Phase.eq_inactive_iff]
    exact h.dropped hdropped

theorem withRoster (h : Aligned s n) (r : Roster γ) : Aligned { s with roster := r } n :=
  h.alike rfl rfl rfl rfl rfl rfl rfl

theorem beginSession (h : Aligned s n) (inactive : s.phase = .inactive)
    (present : s.dropped = false) (hn : n ≤ 4 * s.teardowns.length) :
    Aligned s.beginSession n := by
  have hcount : s.sessions.length = s.teardowns.length := by
    rw [h.count, inactive]
    rfl
  have hsession : ({ generation := s.generation + 1, after := s.lastTeardown } : Session) =
      sessionAt s.teardowns.length n s.sessions.length := by
    have hstage : Stage.reached n (2 * s.sessions.length) = .waiting :=
      Stage.reached_eq_waiting_iff.mpr (by omega)
    have hgeneration : s.generation + 1 = 2 * s.sessions.length + 1 := by
      rw [h.generation]
      omega
    rw [sessionAt, hstage, hgeneration, h.lastTeardown, ← hcount]
    simp
  constructor
  · simp [State.beginSession, hcount, Phase.isLive]
  · intro i hi
    simp only [State.beginSession, List.length_append, List.length_singleton] at hi ⊢
    rw [List.getElem?_append]
    by_cases hlt : i < s.sessions.length
    · rw [if_pos hlt]
      exact h.sessions i hlt
    · have heq : i = s.sessions.length := by omega
      rw [if_neg hlt, heq, Nat.sub_self, hsession]
      rfl
  · exact h.teardowns
  · simp [State.beginSession, hcount, Phase.isLive]
  · exact h.lastTeardown
  · simp only [State.beginSession, List.length_append, List.length_singleton, h.generation]
    omega
  · intro hdropped
    have hdropped : s.dropped = true := hdropped
    rw [present] at hdropped
    cases hdropped

theorem tearDown [Inhabited κ] (h : Aligned s n) (live : s.phase.isLive = true)
    (hn : n ≤ 4 * s.teardowns.length + 2) : Aligned s.tearDown.1 n := by
  have hcount := h.count_eq live
  have hcurrent : s.current = some s.teardowns.length := by rw [h.current, if_pos live]
  have hsessions : s.cancelCurrent =
      s.sessions.modify s.teardowns.length fun x => { x with cancelled := true } := by
    simp [cancelCurrent, hcurrent]
  have hteardown : ({ session := s.current, after := s.lastTeardown } : Teardown) =
      teardownAt n s.teardowns.length := by
    have hstage : Stage.reached n (2 * s.teardowns.length + 1) = .waiting :=
      Stage.reached_eq_waiting_iff.mpr (by omega)
    simp only [teardownAt, hstage, hcurrent, h.lastTeardown]
  constructor
  · simp only [State.tearDown, hsessions, List.length_modify, List.length_append,
      List.length_singleton, hcount]
    rfl
  · intro i hi
    simp only [State.tearDown, hsessions, List.length_modify, List.length_append,
      List.length_singleton] at hi ⊢
    rw [List.getElem?_modify, h.sessions i hi]
    by_cases heq : s.teardowns.length = i
    · simp [sessionAt, heq]
    · have hlt : (i < s.teardowns.length) = (i < s.teardowns.length + 1) := by
        apply propext
        omega
      simp only [Option.map_eq_map, Option.map_some, heq, if_false, sessionAt, hlt]
  · intro j hj
    simp only [State.tearDown, List.length_append, List.length_singleton] at hj ⊢
    rw [List.getElem?_append]
    by_cases hlt : j < s.teardowns.length
    · rw [if_pos hlt]
      exact h.teardowns j hlt
    · have heq : j = s.teardowns.length := by omega
      rw [if_neg hlt, heq, Nat.sub_self, hteardown]
      rfl
  · rfl
  · simp [State.tearDown, before]
  · simp only [State.tearDown, hsessions, List.length_modify, List.length_append,
      List.length_singleton, h.generation]
    omega
  · intro _
    rfl

theorem drop (h : Aligned s n) (inactive : s.phase = .inactive) : Aligned s.drop.1 n := by
  have hcurrent : s.current = none := by
    rw [h.current, inactive]
    rfl
  have hsessions : s.cancelCurrent = s.sessions := by
    rw [cancelCurrent, hcurrent]
    rfl
  simp only [State.drop, hsessions]
  exact ⟨h.count, h.sessions, h.teardowns, by rw [← h.current, hcurrent], h.lastTeardown,
    h.generation, fun _ => inactive⟩

theorem setActivation (h : Aligned s n) {i : Nat} (hn : n / 2 = 2 * i) :
    Aligned (s.setActivation i (.reached (n + 1) (2 * i))) (n + 1) := by
  constructor
  · simp only [State.setActivation, List.length_modify]
    exact h.count
  · intro k hk
    simp only [State.setActivation, List.length_modify] at hk ⊢
    rw [List.getElem?_modify, h.sessions k hk]
    by_cases heq : i = k
    · simp [sessionAt, heq]
    · have hstage : Stage.reached (n + 1) (2 * k) = .reached n (2 * k) :=
        Stage.reached_succ (by omega)
      simp [sessionAt, heq, hstage]
  · intro j hj
    have hstage : Stage.reached (n + 1) (2 * j + 1) = .reached n (2 * j + 1) :=
      Stage.reached_succ (by omega)
    rw [teardownAt, hstage]
    exact h.teardowns j hj
  · exact h.current
  · exact h.lastTeardown
  · simp only [State.setActivation, List.length_modify]
    exact h.generation
  · exact h.dropped

theorem setTeardown (h : Aligned s n) {j : Nat} (hn : n / 2 = 2 * j + 1) :
    Aligned (s.setTeardown j (.reached (n + 1) (2 * j + 1))) (n + 1) := by
  constructor
  · simp only [State.setTeardown, List.length_modify]
    exact h.count
  · intro i hi
    have hstage : Stage.reached (n + 1) (2 * i) = .reached n (2 * i) :=
      Stage.reached_succ (by omega)
    simp only [State.setTeardown, List.length_modify, sessionAt, hstage]
    exact h.sessions i hi
  · intro k hk
    simp only [State.setTeardown, List.length_modify] at hk ⊢
    rw [List.getElem?_modify, h.teardowns k hk]
    by_cases heq : j = k
    · simp [teardownAt, heq]
    · have hstage : Stage.reached (n + 1) (2 * k + 1) = .reached n (2 * k + 1) :=
        Stage.reached_succ (by omega)
      simp [teardownAt, heq, hstage]
  · simp only [State.setTeardown, List.length_modify]
    exact h.current
  · simp only [State.setTeardown, List.length_modify]
    exact h.lastTeardown
  · simp only [State.setTeardown, List.length_modify]
    exact h.generation
  · exact h.dropped

end Aligned

namespace Paced

variable {s : State γ κ} {n : Nat}

theorem uncancelled_of_due (h : Paced s n) {i : Nat} (due : s.ActivationDue i) :
    s.isCancelled i = false := by
  obtain ⟨_, hn⟩ := (h.activationDue_iff i).mp due
  have hlow := h.pace.low
  rw [Bool.eq_false_iff, ne_eq, h.isCancelled_iff]
  omega

theorem inactive_of_not_held (h : Paced s n) (active : s.phase = .active → s.roster.isEmpty = false)
    (free : s.isHeld = false) : s.phase = .inactive := by
  simp only [isHeld, Bool.or_eq_false_iff, Bool.not_eq_false', beq_eq_false_iff_ne] at free
  obtain ⟨⟨⟨hempty, hdraining⟩, hsessions⟩, _⟩ := free
  cases hphase : s.phase with
  | inactive => rfl
  | activating =>
      have hlive : s.phase.isLive = true := by
        rw [hphase]
        rfl
      have hpace := h.pace
      rw [hphase] at hpace
      have hget := h.sessions s.teardowns.length (by rw [h.count_eq hlive]; omega)
      have hended := List.any_eq_false.mp hsessions _ (List.mem_of_getElem? hget)
      simp only [sessionAt, bne_iff_ne, ne_eq, Decidable.not_not,
        Stage.reached_eq_ended_iff] at hended
      simp only [InPace] at hpace
      omega
  | active =>
      rw [active hphase] at hempty
      cases hempty
  | draining => exact absurd hphase hdraining

theorem call (h : Paced s n) {i : Nat} (due : s.ActivationDue i) :
    Paced (s.setActivation i .running) (n + 1) := by
  obtain ⟨hi, hn⟩ := (h.activationDue_iff i).mp due
  have hrunning : Stage.reached (n + 1) (2 * i) = .running :=
    Stage.reached_eq_running_iff.mpr (by omega)
  constructor
  · rw [← hrunning]
    exact h.toAligned.setActivation (by omega)
  · rcases Nat.lt_or_ge i s.teardowns.length with hlt | hge
    · exact h.pace.next (.inl (by omega))
    · obtain ⟨hlive, heq⟩ := h.live_of_le hi hge
      exact h.pace.next (.inr ⟨by omega, h.pace.activating hlive (by omega)⟩)

theorem setTeardown (h : Paced s n) {j : Nat} (hj : j < s.teardowns.length)
    (hn : n / 2 = 2 * j + 1) {stage : Stage} (hstage : Stage.reached (n + 1) (2 * j + 1) = stage) :
    Paced (s.setTeardown j stage) (n + 1) := by
  rw [← hstage]
  constructor
  · exact h.toAligned.setTeardown hn
  · simp only [State.setTeardown, List.length_modify]
    exact h.pace.next (.inl (by omega))

end Paced

/-! ## One step -/

variable [Inhabited κ] {accepts : γ → Bool} {s t : State γ κ} {effects : List (Effect γ κ)}
  {n : Nat}

theorem Aligned.tearDown_paced (h : Aligned s n) (live : s.phase.isLive = true)
    (low : 4 * s.teardowns.length + 1 ≤ n) (high : n ≤ 4 * s.teardowns.length + 2) :
    Paced s.tearDown.1 n := by
  refine ⟨h.tearDown live high, ?_⟩
  simp only [State.tearDown, InPace, List.length_append, List.length_singleton]
  omega

theorem Aligned.failLive_paced (h : Aligned s n) (live : s.phase.isLive = true)
    (low : 4 * s.teardowns.length + 1 ≤ n) (high : n ≤ 4 * s.teardowns.length + 2)
    (e : ProducerError) : Paced (s.failLive accepts e).1 n :=
  (h.withRoster s.roster.clear).tearDown_paced live low high

theorem Paced.outcome (h : Paced s n) {i : Nat} (runs : s.ActivationRuns i)
    {failure : Option ProducerError}
    (outcome : Outcome accepts (s.setActivation i .ended) i failure t effects) :
    Paced t (n + 1) := by
  obtain ⟨hi, hn⟩ := (h.activationRuns_iff i).mp runs
  have hended : Stage.reached (n + 1) (2 * i) = .ended :=
    Stage.reached_eq_ended_iff.mpr (by omega)
  have haligned : Aligned (s.setActivation i .ended) (n + 1) := by
    rw [← hended]
    exact h.toAligned.setActivation (by omega)
  have hteardowns : (s.setActivation i .ended).teardowns = s.teardowns := rfl
  have hphase : (s.setActivation i .ended).phase = s.phase := rfl
  cases outcome with
  | failed e current =>
      obtain ⟨hlive, heq⟩ := (haligned.isCurrent_iff i).mp current
      exact haligned.failLive_paced hlive (by omega) (by omega) e
  | deserted current =>
      obtain ⟨hlive, heq⟩ := (haligned.isCurrent_iff i).mp current
      exact haligned.tearDown_paced hlive (by omega) (by omega)
  | active current activating =>
      obtain ⟨hlive, heq⟩ := (haligned.isCurrent_iff i).mp current
      refine ⟨haligned.alike rfl rfl rfl rfl rfl rfl ?_, ?_⟩
      · rw [activating]
        rfl
      · simp only [InPace]
        omega
  | late failure past =>
      have hearly : i < s.teardowns.length := by
        rcases Nat.lt_or_ge i s.teardowns.length with hlt | hge
        · exact hlt
        · obtain ⟨hlive, heq⟩ := h.live_of_le hi hge
          have hcurrent := (haligned.isCurrent_iff i).mpr ⟨hlive, heq⟩
          have hactivating := h.pace.activating hlive (by omega)
          exact absurd ⟨hcurrent, hactivating⟩ past
      refine ⟨haligned, ?_⟩
      rw [hteardowns, hphase]
      exact h.pace.next (.inl (by omega))

/-- A step keeps the place in the row or moves it on by one, and then it is the next beginning or
end of a hook. -/
theorem Paced.move (h : Paced s n) (manned : Manned s) {input : Input γ κ}
    (admitted : s.admits input = true) (move : Move accepts s input t effects) :
    (Paced t n ∧ marks effects = []) ∨ (Paced t (n + 1) ∧ marks effects = [Mark.nth n]) := by
  have hpace := h.pace
  cases move with
  | refuse => exact .inl ⟨h, rfl⟩
  | begin c inactive =>
      have hpresent : s.dropped = false := by simpa [admits] using admitted
      rw [inactive] at hpace
      simp only [InPace] at hpace
      refine .inl ⟨⟨(h.withRoster _).beginSession inactive hpresent hpace.2, ?_⟩, rfl⟩
      simp only [State.beginSession, InPace]
      omega
  | join c => exact .inl ⟨⟨h.withRoster _, h.pace⟩, rfl⟩
  | rejoin c draining =>
      rw [draining] at hpace
      refine .inl ⟨⟨h.alike rfl rfl rfl rfl rfl rfl ?_, hpace⟩, rfl⟩
      rw [draining]
      rfl
  | part id c => exact .inl ⟨⟨h.withRoster _, h.pace⟩, rfl⟩
  | drain id c grace _ _ active =>
      rw [active] at hpace
      refine .inl ⟨⟨h.alike rfl rfl rfl rfl rfl rfl ?_, hpace⟩, rfl⟩
      rw [active]
      rfl
  | partLast id c _ _ active =>
      have hlive : s.phase.isLive = true := by
        rw [active]
        rfl
      rw [active] at hpace
      simp only [InPace] at hpace
      left
      constructor
      · exact (h.withRoster _).tearDown_paced (s := { s with roster := s.roster.erase id })
          hlive (by simp only; omega) (by simp only; omega)
      · rw [marks_append, marks_append, marks_tearDown]
        rfl
  | elapse epoch draining =>
      have hlive : s.phase.isLive = true := by
        rw [draining]
        rfl
      rw [draining] at hpace
      simp only [InPace] at hpace
      left
      constructor
      · exact h.tearDown_paced hlive (by omega) (by omega)
      · rw [marks_append, marks_tearDown]
        rfl
  | update i f =>
      exact .inl ⟨⟨h.alike rfl rfl rfl rfl rfl rfl rfl, h.pace⟩, rfl⟩
  | complete i current =>
      obtain ⟨hlive, rfl⟩ := (h.isCurrent_iff i).mp current
      left
      constructor
      · exact (h.withRoster s.roster.clear).tearDown_paced hlive
          ((h.isKnown_iff _).mp admitted).2 h.pace.high
      · rw [marks_append, marks_append, marks_close, marks_tearDown]
        rfl
  | fail i e current =>
      obtain ⟨hlive, rfl⟩ := (h.isCurrent_iff i).mp current
      left
      constructor
      · exact h.failLive_paced hlive ((h.isKnown_iff _).mp admitted).2 h.pace.high e
      · exact marks_failLive accepts s e
  | failLate i e => exact .inl ⟨h, rfl⟩
  | call i due =>
      obtain ⟨_, hn⟩ := (h.activationDue_iff i).mp due
      refine .inr ⟨h.call due, ?_⟩
      rw [hn, Mark.nth_mul]
      rfl
  | skip i due cancelled =>
      rw [h.uncancelled_of_due due] at cancelled
      cases cancelled
  | activated i result runs outcome =>
      obtain ⟨_, hn⟩ := (h.activationRuns_iff i).mp runs
      refine .inr ⟨h.outcome runs outcome, ?_⟩
      rw [hn, Mark.nth_mul_add_one, marks_cons, marks_outcome outcome]
      rfl
  | deactivate j due =>
      obtain ⟨hj, hn⟩ := (h.teardownDue_iff j).mp due
      right
      constructor
      · exact h.setTeardown hj (by omega) (Stage.reached_eq_running_iff.mpr (by omega))
      · rw [hn, Mark.nth_mul_add_two]
        rfl
  | deactivated j panic runs =>
      obtain ⟨hj, hn⟩ := (h.teardownRuns_iff j).mp runs
      right
      constructor
      · exact h.setTeardown hj (by omega) (Stage.reached_eq_ended_iff.mpr (by omega))
      · rw [hn, Mark.nth_mul_add_three]
        cases panic <;> rfl
  | drop =>
      have hinactive : s.phase = .inactive := by
        apply h.inactive_of_not_held manned.active
        simpa [admits] using admitted
      left
      constructor
      · exact ⟨h.drop hinactive, h.pace⟩
      · simp only [State.drop]
        cases s.current <;> rfl

theorem Paced.take (h : Paced s n) (manned : Manned s) {o : Occasion γ κ}
    (admitted : s.admits o.input = true) :
    (Paced (s.take o).1 n ∧ marks (s.take o).2 = []) ∨
      (Paced (s.take o).1 (n + 1) ∧ marks (s.take o).2 = [Mark.nth n]) :=
  h.move manned admitted (take_move s o)

/-! ## Whole runs -/

theorem Paced.run {occasions : List (Occasion γ κ)} (h : Paced s n) (manned : Manned s)
    (orderly : s.orderly occasions = true) :
    ∃ m, Paced (s.run occasions).1 m ∧ Manned (s.run occasions).1 ∧
      (List.range n).map Mark.nth ++ marks (s.run occasions).2 = (List.range m).map Mark.nth := by
  induction occasions generalizing s n with
  | nil => exact ⟨n, h, manned, List.append_nil _⟩
  | cons o rest ih =>
      rw [orderly_cons] at orderly
      rw [run_cons, marks_append]
      have hmanned : Manned (s.take o).1 := manned.step o.input
      rcases h.take manned orderly.1 with ⟨hnext, hmarks⟩ | ⟨hnext, hmarks⟩
      · obtain ⟨m, hm, hlast, hrow⟩ := ih hnext hmanned orderly.2
        refine ⟨m, hm, hlast, ?_⟩
        rw [hmarks]
        exact hrow
      · obtain ⟨m, hm, hlast, hrow⟩ := ih hnext hmanned orderly.2
        refine ⟨m, hm, hlast, ?_⟩
        rw [List.range_succ, List.map_append, List.append_assoc] at hrow
        rw [hmarks]
        exact hrow

theorem paced_run (name : String) (grace : Option Span) {occasions : List (Occasion γ κ)}
    (orderly : (fresh name grace : State γ κ).orderly occasions = true) :
    ∃ n, Paced ((fresh name grace).run occasions).1 n ∧
      Manned ((fresh name grace).run occasions).1 ∧
      marks ((fresh name grace).run occasions).2 = (List.range n).map Mark.nth := by
  exact (paced_fresh name grace).run (manned_fresh name grace) orderly

end State

end Lifecycle.Gate
