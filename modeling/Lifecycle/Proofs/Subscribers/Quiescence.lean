import Lifecycle.Proofs.Subscribers.Listening

/-!
# When a listener comes to rest

Once nobody else publishes, a listener that keeps up comes to rest: each receipt makes its load
smaller.  A listener that has once fallen behind never does, for its notice of that overwrites
another event on the full bus.
-/

namespace Lifecycle.Subscribers

def Act.isOutside : Act → Bool
  | publish _ => true
  | _ => false

namespace Circuit

theorem unread_eq_sub (c : Circuit) : c.unread = c.bus.overflows.length - c.position := by
  rw [Bus.length_overflows, unread]

theorem load_congr {c d : Circuit} (framed : Framed c d)
    (bus : d.bus.overflows = c.bus.overflows) (position : d.position = c.position) :
    d.load = c.load := by
  rw [load, load, framed.channels, bus, position]

/-! ## One act -/

namespace Moves

variable {c d : Circuit} {a : Act}

theorem notices_le (h : Moves c d a) : c.notices ≤ d.notices := by
  unfold notices
  cases h with
  | published e bus => rw [bus, List.count_append]; omega
  | lagged behind bus => rw [bus, List.count_append]; omega
  | heard near overflow next j few bus => rw [bus, List.count_append]; omega
  | idled read bus => exact Nat.le_of_eq (by rw [bus])
  | took k bus => exact Nat.le_of_eq (by rw [bus])
  | handled k bus => exact Nat.le_of_eq (by rw [bus])

theorem behind (h : Moves c d a) (framed : Framed c d) (behind : c.bus.window < c.unread) :
    d.bus.window < d.unread := by
  rw [framed.window]
  rw [unread_eq_sub] at behind ⊢
  cases h with
  | published e bus position =>
      rw [bus, position, List.length_append, List.length_singleton]
      omega
  | lagged _ bus position =>
      rw [bus, position, List.length_append, List.length_singleton, Bus.overwritten,
        Bus.length_overflows]
      rw [Bus.length_overflows] at behind
      omega
  | heard near =>
      rw [unread_eq_sub] at near
      omega
  | idled read =>
      rw [unread_eq_sub] at read
      omega
  | took k bus position =>
      rw [bus, position]
      exact behind
  | handled k bus position =>
      rw [bus, position]
      exact behind

theorem notices_succ (h : Moves c d .hear) (behind : c.bus.window < c.unread) :
    d.notices = c.notices + 1 := by
  cases h with
  | lagged _ bus =>
      unfold notices
      rw [bus, List.count_append]
      rfl
  | heard near => omega
  | idled read => omega

theorem rest (h : Moves c d a) (inside : a.isOutside = false) (read : c.unread = 0) :
    d.unread = 0 ∧ d.notices = c.notices := by
  rw [unread_eq_sub] at read ⊢
  unfold notices
  cases h with
  | published => cases inside
  | lagged behind =>
      rw [unread_eq_sub] at behind
      omega
  | heard near overflow next =>
      have hlt := (List.getElem?_eq_some_iff.mp next).1
      omega
  | idled _ bus position => rw [bus, position]; exact ⟨read, rfl⟩
  | took k bus position => rw [bus, position]; exact ⟨read, rfl⟩
  | handled k bus position => rw [bus, position]; exact ⟨read, rfl⟩

/-- What the listener hears weighs more than the refusals that follow. -/
theorem load_lt (h : Moves c d .hear) (framed : Framed c d) (near : c.unread ≤ c.bus.window)
    (unread : c.unread ≠ 0) : d.load < c.load := by
  cases h with
  | lagged behind => omega
  | idled read => exact absurd read unread
  | heard _ overflow next j few bus position =>
      have hlt := (List.getElem?_eq_some_iff.mp next).1
      have hnext : c.bus.overflows.drop c.position =
          overflow :: c.bus.overflows.drop (c.position + 1) := by
        rw [List.drop_eq_getElem_cons hlt, (List.getElem?_eq_some_iff.mp next).2]
      rw [load, load, framed.channels, bus, position, hnext,
        List.drop_append_of_le_length (by omega), weigh, weigh_append, weigh_replicate]
      omega

theorem load_le (h : Moves c d a) (framed : Framed c d) (inside : a.isOutside = false)
    (near : c.unread ≤ c.bus.window) : d.load ≤ c.load := by
  cases a with
  | publish e => cases inside
  | hear =>
      by_cases hread : c.unread = 0
      · cases h with
        | lagged behind => omega
        | heard near overflow next =>
            have hlt := (List.getElem?_eq_some_iff.mp next).1
            rw [unread_eq_sub] at hread
            omega
        | idled _ bus position => exact Nat.le_of_eq (load_congr framed bus position)
      · exact Nat.le_of_lt (h.load_lt framed near hread)
  | take k =>
      cases h with
      | took _ bus position => exact Nat.le_of_eq (load_congr framed bus position)
  | handled k =>
      cases h with
      | handled _ bus position => exact Nat.le_of_eq (load_congr framed bus position)

end Moves

/-! ## Endless schedules -/

section Schedules

variable {c : Circuit} {acts : Nat → Act}

theorem after_listens (h : c.Listens) (n : Nat) : (c.after acts n).Listens := by
  induction n with
  | zero => exact h
  | succ n ih => exact (act_moves ih (acts n)).2.listens

theorem after_moves (h : c.Listens) (acts : Nat → Act) (n : Nat) :
    Moves (c.after acts n) (c.after acts (n + 1)) (acts n) ∧
      Framed (c.after acts n) (c.after acts (n + 1)) :=
  act_moves (after_listens h n) (acts n)

theorem window_after (h : c.Listens) (n : Nat) : (c.after acts n).bus.window = c.bus.window := by
  induction n with
  | zero => rfl
  | succ n ih => rw [(after_moves h acts n).2.window, ih]

theorem notices_mono (h : c.Listens) (acts : Nat → Act) {n m : Nat} (hle : n ≤ m) :
    (c.after acts n).notices ≤ (c.after acts m).notices := by
  induction hle with
  | refl => exact Nat.le_refl _
  | step _ ih => exact Nat.le_trans ih (after_moves h acts _).1.notices_le

theorem behind_forever (h : c.Listens) {n m : Nat} (hle : n ≤ m)
    (behind : c.bus.window < (c.after acts n).unread) :
    c.bus.window < (c.after acts m).unread := by
  induction hle with
  | refl => exact behind
  | step _ ih =>
      obtain ⟨hmoves, hframed⟩ := after_moves h acts _
      rw [← window_after h] at ih ⊢
      exact hmoves.behind hframed ih

theorem notices_unbounded (h : c.Listens) (fair : ∀ n, ∃ m, n ≤ m ∧ acts m = .hear) {n : Nat}
    (behind : c.bus.window < (c.after acts n).unread) (b : Nat) :
    ∃ m, n ≤ m ∧ b ≤ (c.after acts m).notices := by
  induction b with
  | zero => exact ⟨n, Nat.le_refl _, Nat.zero_le _⟩
  | succ b ih =>
      obtain ⟨m, hnm, hb⟩ := ih
      obtain ⟨k, hmk, hhear⟩ := fair m
      have hbehind := behind_forever h (Nat.le_trans hnm hmk) behind
      rw [← window_after h k] at hbehind
      have hmoves := (after_moves h acts k).1
      rw [hhear] at hmoves
      have hmore := hmoves.notices_succ hbehind
      have hmono := notices_mono h acts hmk
      exact ⟨k + 1, by omega, by omega⟩

theorem load_mono (h : c.Listens) (near : ∀ n, (c.after acts n).unread ≤ c.bus.window)
    {start : Nat} (inside : ∀ n, start ≤ n → (acts n).isOutside = false) {n m : Nat}
    (hstart : start ≤ n) (hle : n ≤ m) : (c.after acts m).load ≤ (c.after acts n).load := by
  induction hle with
  | refl => exact Nat.le_refl _
  | step hle ih =>
      obtain ⟨hmoves, hframed⟩ := after_moves h acts _
      refine Nat.le_trans (hmoves.load_le hframed (inside _ (Nat.le_trans hstart hle)) ?_) ih
      rw [window_after h]
      exact near _

theorem comes_to_rest (h : c.Listens) (near : ∀ n, (c.after acts n).unread ≤ c.bus.window)
    {start : Nat} (inside : ∀ n, start ≤ n → (acts n).isOutside = false)
    (fair : ∀ n, ∃ m, n ≤ m ∧ acts m = .hear) (load n : Nat) (hstart : start ≤ n)
    (hload : (c.after acts n).load ≤ load) : ∃ m, start ≤ m ∧ (c.after acts m).unread = 0 := by
  induction load generalizing n with
  | zero =>
      have hunread := unread_le_load (c.after acts n)
      exact ⟨n, hstart, by omega⟩
  | succ load ih =>
      obtain ⟨k, hnk, hhear⟩ := fair n
      by_cases hread : (c.after acts k).unread = 0
      · exact ⟨k, Nat.le_trans hstart hnk, hread⟩
      · obtain ⟨hmoves, hframed⟩ := after_moves h acts k
        rw [hhear] at hmoves
        have hnear := near k
        rw [← window_after h k] at hnear
        have hless := hmoves.load_lt hframed hnear hread
        have hmono := load_mono h near inside hstart hnk
        exact ih (k + 1) (by omega) (by omega)

theorem rests_forever (h : c.Listens) {start : Nat}
    (inside : ∀ n, start ≤ n → (acts n).isOutside = false) {n m : Nat} (hstart : start ≤ n)
    (hle : n ≤ m) (read : (c.after acts n).unread = 0) :
    (c.after acts m).unread = 0 ∧ (c.after acts m).notices = (c.after acts n).notices := by
  induction hle with
  | refl => exact ⟨read, rfl⟩
  | step hle ih =>
      obtain ⟨hread, hnotices⟩ :=
        (after_moves h acts _).1.rest (inside _ (Nat.le_trans hstart hle)) ih.1
      exact ⟨hread, hnotices.trans ih.2⟩

/-- From some moment on the listener has nothing to receive, and no more is told about overflow. -/
structure Quiesces (c : Circuit) (acts : Nat → Act) : Prop where
  rests : ∃ n, ∀ m, n ≤ m → (c.after acts m).unread = 0
  bounded : ∃ b, ∀ n, (c.after acts n).notices ≤ b

theorem not_quiesces_of_behind (h : c.Listens) {n : Nat}
    (behind : c.bus.window < (c.after acts n).unread) : ¬Quiesces c acts := by
  rintro ⟨⟨m, hm⟩, _⟩
  have hbehind := behind_forever h (Nat.le_max_left n m) behind
  have hread := hm (max n m) (Nat.le_max_right n m)
  omega

theorem quiesces_of_near (h : c.Listens) (near : ∀ n, (c.after acts n).unread ≤ c.bus.window)
    {start : Nat} (inside : ∀ n, start ≤ n → (acts n).isOutside = false)
    (fair : ∀ n, ∃ m, n ≤ m ∧ acts m = .hear) : Quiesces c acts := by
  obtain ⟨n, hstart, hread⟩ := comes_to_rest h near inside fair _ start (Nat.le_refl _)
    (Nat.le_refl _)
  constructor
  · exact ⟨n, fun m hle => (rests_forever h inside hstart hle hread).1⟩
  · refine ⟨(c.after acts n).notices, fun m => ?_⟩
    rcases Nat.le_total m n with hle | hle
    · exact notices_mono h acts hle
    · exact Nat.le_of_eq (rests_forever h inside hstart hle hread).2

end Schedules

theorem listening_listens (bus : Bus) (channels : List Channel) :
    (listening bus channels).Listens :=
  ⟨bus.subscribe, rfl, Nat.le_refl _⟩

/-- A listener comes to rest exactly if it never has more to receive than the bus keeps.  If it
once has, it always has, and its notices never end. -/
theorem quiesces_iff_keeps_up (bus : Bus) (channels : List Channel) (acts : Nat → Act)
    (ends : ∃ start, ∀ n, start ≤ n → (acts n).isOutside = false)
    (fair : ∀ n, ∃ m, n ≤ m ∧ acts m = .hear) :
    (Quiesces (listening bus channels) acts ↔
        ∀ n, ((listening bus channels).after acts n).unread ≤ bus.window) ∧
      ∀ n, bus.window < ((listening bus channels).after acts n).unread →
        (∀ m, n ≤ m → bus.window < ((listening bus channels).after acts m).unread) ∧
        ∀ b, ∃ m, b ≤ ((listening bus channels).after acts m).notices := by
  have h := listening_listens bus channels
  obtain ⟨start, inside⟩ := ends
  constructor
  · constructor
    · intro hquiesces n
      rcases Nat.lt_or_ge bus.window ((listening bus channels).after acts n).unread with
        hbehind | hnear
      · exact absurd hquiesces (not_quiesces_of_behind h hbehind)
      · exact hnear
    · intro near
      exact quiesces_of_near h near inside fair
  · intro n behind
    constructor
    · intro m hle
      exact behind_forever h hle behind
    · intro b
      obtain ⟨m, _, hb⟩ := notices_unbounded h fair behind b
      exact ⟨m, hb⟩

/-- Three events reach a bus that keeps two before the listener has its first turn. -/
def burst (n : Nat) : Act :=
  if n < 3 then .publish { kind := .taskStarted } else .hear

theorem burst_eq_hear {n : Nat} (hn : 3 ≤ n) : burst n = .hear := by
  rw [burst, if_neg (by omega)]

def narrow : Circuit := listening (Bus.ofCapacity 2) [Channel.ofCapacity "a" 1024]

theorem narrow_behind_after_burst : (Bus.ofCapacity 2).window < (narrow.after burst 3).unread := by
  decide +kernel

theorem burst_never_ends_for_narrow :
    (∃ start, ∀ n, start ≤ n → (burst n).isOutside = false) ∧
      (∀ n, ∃ m, n ≤ m ∧ burst m = .hear) ∧
      (Quiesces narrow burst ↔
        ∀ n, (narrow.after burst n).unread ≤ (Bus.ofCapacity 2).window) ∧
      ∀ b, ∃ m, b ≤ (narrow.after burst m).notices := by
  have hends : ∃ start, ∀ n, start ≤ n → (burst n).isOutside = false := by
    refine ⟨3, fun n hn => ?_⟩
    rw [burst_eq_hear hn]
    rfl
  have hfair : ∀ n, ∃ m, n ≤ m ∧ burst m = .hear := by
    intro n
    exact ⟨n + 3, by omega, burst_eq_hear (by omega)⟩
  have hrest := quiesces_iff_keeps_up (Bus.ofCapacity 2) [Channel.ofCapacity "a" 1024] burst
    hends hfair
  exact ⟨hends, hfair, hrest.1, (hrest.2 3 narrow_behind_after_burst).2⟩

/-- Nobody else publishes after the burst, and the listener goes on receiving, without end. -/
theorem listener_never_recovers_from_burst :
    (∀ n, 3 ≤ n → burst n = .hear) ∧ ¬Quiesces narrow burst :=
  ⟨fun _ hn => burst_eq_hear hn,
    not_quiesces_of_behind (listening_listens _ _) narrow_behind_after_burst⟩

end Circuit

end Lifecycle.Subscribers
