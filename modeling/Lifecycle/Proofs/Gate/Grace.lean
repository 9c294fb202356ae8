import Lifecycle.Proofs.Gate.Errands

/-!
# A session without consumers

While a gate is draining its session lingers.  A new consumer, the end of the session and the end of
the grace period put an end to that, and nothing else does.  A gate whose session is gone stays
inactive until a consumer comes.
-/

namespace Lifecycle.Gate

variable {γ κ : Type}

/-- A consumer comes, or the session ends. -/
def Input.disturbs (i : Nat) : Input γ κ → Bool
  | .attach _ => true
  | .complete k | .fail k _ => k == i
  | _ => false

namespace State

/-- The session waits for the end of the grace period with the given epoch. -/
structure Lingers (s : State γ κ) (epoch i : Nat) : Prop where
  phase : s.phase = .draining
  epoch : s.drainEpoch = epoch
  current : s.isCurrent i = true

structure Gone (s : State γ κ) (i : Nat) : Prop where
  phase : s.phase = .inactive
  cancelled : s.isCancelled i = true

structure Sound [Inhabited κ] (s : State γ κ) : Prop where
  paced : ∃ n, Paced s n
  manned : Manned s

variable [Inhabited κ] {accepts : γ → Bool} {s t : State γ κ} {effects : List (Effect γ κ)}
  {input : Input γ κ} {epoch i : Nat}

theorem Sound.move (h : Sound s) (move : Move accepts s input t effects)
    (admitted : s.admits input = true) : Sound t := by
  obtain ⟨n, hpaced⟩ := h.paced
  obtain ⟨m, hnext, _⟩ := hpaced.advance h.manned admitted move
  exact ⟨⟨m, hnext⟩, h.manned.move move⟩

theorem Lingers.move (h : Lingers s epoch i) (sound : Sound s)
    (move : Move accepts s input t effects) (admitted : s.admits input = true)
    (calm : input.disturbs i = false) (other : input ≠ .drainElapsed epoch) :
    Lingers t epoch i := by
  obtain ⟨n, hpaced⟩ := sound.paced
  have hphase := h.phase
  have hempty := (sound.manned.draining hphase).1
  have hpace := hpaced.pace
  simp only [hphase, InPace] at hpace
  have only {k : Nat} (hk : s.isCurrent k = true) : k = i := hpaced.current_unique hk h.current
  cases move with
  | refuse => exact h
  | begin => cases calm
  | join => cases calm
  | rejoin => cases calm
  | part id c attached =>
      rw [Roster.find?_eq_none_of_isEmpty hempty] at attached
      cases attached
  | drain id c grace attached =>
      rw [Roster.find?_eq_none_of_isEmpty hempty] at attached
      cases attached
  | partLast id c attached =>
      rw [Roster.find?_eq_none_of_isEmpty hempty] at attached
      cases attached
  | elapse k _ same => exact absurd (by rw [← same, h.epoch]) other
  | update => exact ⟨hphase, h.epoch, h.current⟩
  | complete k current => simp [Input.disturbs, only current] at calm
  | fail k e current => simp [Input.disturbs, only current] at calm
  | failLate => exact h
  | call k due =>
      have hdue := (hpaced.activationDue_iff k).mp due
      omega
  | skip k due =>
      have hdue := (hpaced.activationDue_iff k).mp due
      omega
  | activated k result runs =>
      have hruns := (hpaced.activationRuns_iff k).mp runs
      omega
  | deactivate k due =>
      have hdue := (hpaced.teardownDue_iff k).mp due
      omega
  | deactivated k panic runs =>
      have hruns := (hpaced.teardownRuns_iff k).mp runs
      omega
  | drop =>
      simp [admits, isHeld, hphase] at admitted

theorem Sound.gone (h : Sound s) (phase : s.phase = .inactive) (ended : i < s.teardowns.length) :
    Gone s i := by
  obtain ⟨n, hpaced⟩ := h.paced
  exact ⟨phase, (hpaced.isCancelled_iff i).mpr ended⟩

theorem Lingers.elapsed (h : Lingers s epoch i) (sound : Sound s)
    (move : Move accepts s (.drainElapsed epoch) t effects) :
    t = s.tearDown.1 ∧ Gone t i := by
  obtain ⟨n, hpaced⟩ := sound.paced
  have hsound := sound.move move rfl
  obtain ⟨_, hcurrent⟩ := (hpaced.isCurrent_iff i).mp h.current
  cases move with
  | refuse _ ignored => exact absurd ⟨h.phase, h.epoch, (sound.manned.draining h.phase).1⟩ ignored
  | elapse =>
      refine ⟨rfl, hsound.gone rfl ?_⟩
      simp [tearDown, hcurrent]

theorem Outcome.inactive {failure : Option ProducerError}
    (outcome : Outcome accepts s i failure t effects) (inactive : s.phase = .inactive) :
    t.phase = .inactive := by
  cases outcome with
  | active _ activating =>
      rw [inactive] at activating
      cases activating
  | late => exact inactive
  | _ => rfl

theorem Move.inactive (move : Move accepts s input t effects) (inactive : s.phase = .inactive)
    (calm : input.disturbs i = false) : t.phase = .inactive := by
  cases move with
  | begin => cases calm
  | join => cases calm
  | rejoin => cases calm
  | drain id c grace attached last active =>
      rw [inactive] at active
      cases active
  | partLast => rfl
  | elapse => rfl
  | complete => rfl
  | fail => rfl
  | skip k due cancelled outcome => exact outcome.inactive inactive
  | activated k result runs outcome => exact outcome.inactive inactive
  | _ => exact inactive

theorem Gone.move (h : Gone s i) (sound : Sound s) (move : Move accepts s input t effects)
    (admitted : s.admits input = true) (calm : input.disturbs i = false) : Gone t i := by
  obtain ⟨n, hpaced⟩ := sound.paced
  have hover := (hpaced.isCancelled_iff i).mp h.cancelled
  apply (sound.move move admitted).gone (move.inactive h.phase calm)
  rcases move.bears.teardowns with hsame | ⟨hmore, _⟩ <;> omega

end State

end Lifecycle.Gate
