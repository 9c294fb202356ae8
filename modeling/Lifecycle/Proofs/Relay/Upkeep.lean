import Lifecycle.Proofs.Relay.Run

/-!
# What a relay keeps

Its attached consumers have inboxes of their own and belong to the live session, and a conflating
relay keeps the last value that this session has emitted.
-/

namespace Lifecycle.Relay

open Gate.State (Move Paced Manned)

def Moment.emitted? (c : Nat) (m : Moment) : Option Value :=
  match m.act with
  | .emit i v =>
      match (m.before.emit i v).2 with
      | .ok _ => if i = c then some v else none
      | .error _ => none
  | _ => none

def emissions (c : Nat) (ms : List Moment) : List Value := ms.filterMap (·.emitted? c)

def replayed (conflate : Bool) (c : Nat) (earlier : List Moment) : List Item :=
  if conflate then (emissions c earlier).getLast?.toList.map .value else []

@[simp] theorem emissions_append (c : Nat) (a b : List Moment) :
    emissions c (a ++ b) = emissions c a ++ emissions c b := List.filterMap_append

theorem emissions_singleton (c : Nat) (m : Moment) : emissions c [m] = (m.emitted? c).toList := by
  cases h : m.emitted? c <;> simp [emissions, h]

theorem emitted?_eq_some_iff {c : Nat} {m : Moment} {v : Value} :
    m.emitted? c = some v ↔ m.act = .emit c v ∧ m.before.gate.isCurrent c = true := by
  obtain ⟨s, a⟩ := m
  cases a with
  | emit i w =>
      cases hcurrent : s.gate.isCurrent i with
      | true =>
          by_cases hi : i = c
          · subst hi
            simp [Moment.emitted?, State.emit_current hcurrent, hcurrent]
          · simp [Moment.emitted?, State.emit_current hcurrent, hi]
      | false =>
          simp only [Moment.emitted?, State.emit_stale hcurrent, Act.emit.injEq, reduceCtorEq,
            false_iff]
          rintro ⟨⟨rfl, _⟩, current⟩
          rw [hcurrent] at current
          cases current
  | _ => simp [Moment.emitted?]

/-- What holds at the gate and in the cache after the given moments. -/
structure Kept (s : State) (past : List Moment) : Prop where
  paced : ∃ n, Paced s.gate n
  manned : Manned s.gate
  seated : ∀ k ∈ s.gate.roster.members, k < s.inboxes.length
  distinct : s.gate.roster.members.Nodup
  cache : ∀ c, s.gate.isCurrent c = true →
    s.gate.cache.toList.map .value = replayed s.conflate c past
  unborn : ∀ c, s.gate.sessions.length ≤ c → emissions c past = []

theorem kept_fresh (settings : RelaySettings) : Kept (.fresh settings) [] where
  paced := ⟨0, Gate.State.paced_fresh _ _⟩
  manned := Gate.State.manned_fresh _ _
  seated _ hk := absurd hk List.not_mem_nil
  distinct := List.Pairwise.nil
  cache c current := by cases current
  unborn _ _ := rfl

namespace Kept

variable {s : State} {past : List Moment} {a : Act}

theorem emissions_unborn (h : Kept s past) {c : Nat} (unborn : s.gate.sessions.length ≤ c) :
    emissions c (past ++ [⟨s, a⟩]) = [] := by
  rw [emissions_append, h.unborn c unborn, emissions_singleton]
  cases hemitted : Moment.emitted? c ⟨s, a⟩ with
  | none => rfl
  | some v =>
      obtain ⟨n, hpaced⟩ := h.paced
      have hcurrent := (hpaced.isCurrent_iff c).mp (emitted?_eq_some_iff.mp hemitted).2
      have hcount := hpaced.count_eq hcurrent.1
      omega

theorem cache_act (h : Kept s past) {t : GateState} {o : Gate.Occasion Nat (Option Value)}
    (admitted : s.admits a = true) (asked : s.occasion? a = some o)
    (carries : Gate.State.Carries s.gate t o.input) {n : Nat} (paced : Paced t n) {c : Nat}
    (current : t.isCurrent c = true) :
    t.cache.toList.map .value = replayed s.conflate c (past ++ [⟨s, a⟩]) := by
  obtain ⟨_, hpaced⟩ := h.paced
  rw [← paced.current_eq_some_iff] at current
  cases carries with
  | ended gone =>
      rw [gone] at current
      cases current
  | begun inactive begun cache =>
      rw [begun] at current
      have hc : s.gate.sessions.length = c := Option.some.inj current
      rw [cache, (h.manned.inactive inactive).2, replayed, h.emissions_unborn (Nat.le_of_eq hc)]
      cases s.conflate <;> rfl
  | kept same cache other =>
      rw [same, hpaced.current_eq_some_iff] at current
      have hemitted : Moment.emitted? c ⟨s, a⟩ = none := by
        rw [Option.eq_none_iff_forall_ne_some]
        intro v hv
        have hact : a = .emit c v := (emitted?_eq_some_iff.mp hv).1
        subst hact
        cases asked
        rw [other c (by simp [Gate.Input.update?])] at current
        cases current
      rw [cache, h.cache c current, replayed, replayed, emissions_append, emissions_singleton,
        hemitted, Option.toList_none, List.append_nil]
  | updated i f update live same cache =>
      rw [same, hpaced.current_eq_some_iff] at current
      have hi : i = c := hpaced.current_unique live current
      cases a with
      | emit j v =>
          cases asked
          cases update
          have hemitted : Moment.emitted? c ⟨s, .emit i v⟩ = some v :=
            emitted?_eq_some_iff.mpr ⟨by rw [hi], by rw [← hi]; exact live⟩
          rw [cache, replayed, emissions_append, emissions_singleton, hemitted, State.keep]
          cases hconflate : s.conflate with
          | true => simp
          | false =>
              have hempty := h.cache i live
              rw [replayed, hconflate] at hempty
              exact hempty
      | attach =>
          cases asked
          cases update
      | gate input =>
          cases asked
          cases update
          cases admitted
      | _ => cases asked

theorem members_sublist {t : GateState} {input : Input} {effects : List Effect}
    {accepts : Nat → Bool} (h : Kept s past) (move : Move accepts s.gate input t effects) :
    t.roster.members.Sublist (s.gate.roster.members ++ input.attached?.toList) := by
  cases hlive : t.phase.isLive with
  | false =>
      have hinactive := Gate.Phase.eq_inactive_iff.mpr hlive
      rw [Gate.Roster.isEmpty_iff.mp ((h.manned.move move).inactive hinactive).1]
      exact List.nil_sublist _
  | true =>
      rcases move.since h.manned hlive with ⟨_, _, hmembers⟩ | ⟨_, _, hmembers⟩
      · exact hmembers
      · exact hmembers.trans (List.sublist_append_right _ _)

theorem emitted_quiet (asked : s.occasion? a = none) (c : Nat) :
    Moment.emitted? c ⟨s, a⟩ = none := by
  cases a with
  | emit i v => cases asked
  | _ => rfl

theorem comers {o : Gate.Occasion Nat (Option Value)} (h : Kept s past)
    (admitted : s.admits a = true) (asked : s.occasion? a = some o) :
    (s.gate.roster.members ++ o.input.attached?.toList).Nodup ∧
      ∀ k ∈ s.gate.roster.members ++ o.input.attached?.toList,
        k < (s.act a).inboxes.length := by
  rcases State.attached_occasion admitted asked with ⟨rfl, hcoming⟩ | ⟨hother, hcoming⟩
  · rw [hcoming, State.length_attach, Option.toList_some]
    constructor
    · rw [List.nodup_append]
      refine ⟨h.distinct, List.pairwise_singleton _ _, ?_⟩
      intro k hk j hj
      have hlt := h.seated k hk
      rw [List.mem_singleton] at hj
      omega
    · intro k hk
      rcases List.mem_append.mp hk with hk | hk
      · exact Nat.lt_succ_of_lt (h.seated k hk)
      · rw [List.mem_singleton] at hk
        omega
  · rw [hcoming, State.length_act hother, Option.toList_none, List.append_nil]
    exact ⟨h.distinct, h.seated⟩

theorem act (h : Kept s past) (admitted : s.admits a = true) :
    Kept (s.act a) (past ++ [⟨s, a⟩]) := by
  obtain ⟨n, hpaced⟩ := h.paced
  have hgate := s.gate_act a
  cases hasked : s.occasion? a with
  | none =>
      rw [hasked] at hgate
      have hother : a ≠ .attach := by
        rintro rfl
        cases hasked
      have hquiet (c : Nat) : emissions c (past ++ [⟨s, a⟩]) = emissions c past := by
        simp [emissions_singleton, emitted_quiet hasked c]
      refine ⟨⟨n, ?_⟩, ?_, ?_, ?_, ?_, ?_⟩ <;> rw [hgate]
      · exact hpaced
      · exact h.manned
      · rw [State.length_act hother]
        exact h.seated
      · exact h.distinct
      · rw [State.conflate_act]
        intro c current
        rw [replayed, hquiet]
        exact h.cache c current
      · intro c unborn
        rw [hquiet]
        exact h.unborn c unborn
  | some o =>
      rw [hasked] at hgate
      have hmove := Gate.State.take_move s.gate o
      have hadmitted := State.admits_occasion admitted hasked
      have hmembers := h.members_sublist hmove
      have hnext : ∃ m, Paced (s.gate.take o).1 m := by
        rcases hpaced.take h.manned hadmitted with ⟨hnext, _⟩ | ⟨hnext, _⟩
        · exact ⟨_, hnext⟩
        · exact ⟨_, hnext⟩
      obtain ⟨m, hnext⟩ := hnext
      refine ⟨⟨m, ?_⟩, ?_, ?_, ?_, ?_, ?_⟩ <;> rw [hgate]
      · exact hnext
      · exact h.manned.move hmove
      · exact fun k hk => (h.comers admitted hasked).2 k (hmembers.subset hk)
      · exact hmembers.nodup (h.comers admitted hasked).1
      · rw [State.conflate_act]
        intro c current
        exact h.cache_act admitted hasked hmove.carries hnext current
      · intro c unborn
        exact h.emissions_unborn (Nat.le_trans hmove.sessions_le unborn)

theorem remains (h : Kept s past) (admitted : s.admits a = true) {k : Nat}
    (old : k < s.inboxes.length) (stays : k ∈ (s.act a).gate.roster.members) :
    k ∈ s.gate.roster.members ∧
      ∀ c, s.gate.isCurrent c = true → (s.act a).gate.isCurrent c = true := by
  have hgate := s.gate_act a
  cases hasked : s.occasion? a with
  | none =>
      rw [hasked] at hgate
      rw [hgate] at stays ⊢
      exact ⟨stays, fun _ current => current⟩
  | some o =>
      rw [hasked] at hgate
      rw [hgate] at stays ⊢
      change k ∈ (s.gate.take o).1.roster.members at stays
      have hmove := Gate.State.take_move s.gate o
      have hcoming : k ∉ o.input.attached?.toList := by
        rcases State.attached_occasion admitted hasked with ⟨_, hcoming⟩ | ⟨_, hcoming⟩
        · rw [hcoming, Option.toList_some, List.mem_singleton]
          omega
        · rw [hcoming]
          exact List.not_mem_nil
      obtain ⟨_, hpaced⟩ := h.paced
      obtain ⟨_, hnext⟩ := (h.act admitted).paced
      rw [hgate] at hnext
      change Paced (s.gate.take o).1 _ at hnext
      have hlive : (s.gate.take o).1.phase.isLive = true := by
        cases hlive : (s.gate.take o).1.phase.isLive with
        | true => rfl
        | false =>
            have hinactive := Gate.Phase.eq_inactive_iff.mpr hlive
            have hempty := ((h.manned.move hmove).inactive hinactive).1
            rw [Gate.Roster.isEmpty_iff.mp hempty] at stays
            cases stays
      rcases hmove.since h.manned hlive with ⟨hbefore, hcount, hmembers⟩ | ⟨_, _, hmembers⟩
      · constructor
        · exact (List.mem_append.mp (hmembers.subset stays)).resolve_right hcoming
        · intro c current
          have hc := ((hpaced.isCurrent_iff c).mp current).2
          have hsessions := hpaced.count_eq hbefore
          have hsessions' := hnext.count_eq hlive
          exact (hnext.isCurrent_iff c).mpr ⟨hlive, by omega⟩
      · exact absurd (hmembers.subset stays) hcoming

end Kept

end Lifecycle.Relay
