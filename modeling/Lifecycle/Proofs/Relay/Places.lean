import Lifecycle.Proofs.Relay.Currency
import Lifecycle.Proofs.Relay.Delivery

/-!
# Places of consumers

Consumers and inboxes are numbered alike, and an inbox is open as long as its consumer has a place
at the gate.
-/

namespace Lifecycle.Relay

open Gate.State (Move)

section Roster

variable {accepts : Nat → Bool} {s t : GateState} {input : Input} {effects : List Effect}

structure Enrols (s t : GateState) (coming : Option Nat) : Prop where
  nextId : t.roster.nextId = s.roster.nextId + coming.toList.length
  entries : ∀ e ∈ t.roster.entries,
    e ∈ s.roster.entries ∨ ∃ c, coming = some c ∧ e = (s.roster.nextId, c)

theorem Enrols.of_sublist {coming : Option Nat} (nobody : coming = none)
    (nextId : t.roster.nextId = s.roster.nextId)
    (entries : t.roster.entries.Sublist s.roster.entries) : Enrols s t coming := by
  subst nobody
  exact ⟨nextId, fun e he => .inl (entries.mem he)⟩

theorem Enrols.of_insert {c : Nat} (roster : t.roster = s.roster.insert c) :
    Enrols s t (some c) := by
  refine ⟨by rw [roster]; rfl, fun e he => ?_⟩
  rw [roster] at he
  rcases List.mem_append.mp he with he | he
  · exact .inl he
  · exact .inr ⟨c, rfl, List.mem_singleton.mp he⟩

theorem enrols_outcome {i : Nat} {failure : Option ProducerError}
    (outcome : Gate.State.Outcome accepts s i failure t effects) : Enrols s t none := by
  cases outcome with
  | failed => exact .of_sublist rfl rfl (List.nil_sublist _)
  | deserted => exact .of_sublist rfl rfl (.refl _)
  | active => exact .of_sublist rfl rfl (.refl _)
  | late => exact .of_sublist rfl rfl (.refl _)

theorem enrols_move (move : Move accepts s input t effects) : Enrols s t input.attached? := by
  cases move with
  | refuse _ ignored =>
      refine .of_sublist ?_ rfl (.refl _)
      cases input with
      | attach => exact absurd ignored id
      | _ => rfl
  | begin => exact .of_insert rfl
  | join => exact .of_insert rfl
  | rejoin => exact .of_insert rfl
  | part => exact .of_sublist rfl rfl List.filter_sublist
  | drain => exact .of_sublist rfl rfl List.filter_sublist
  | partLast => exact .of_sublist rfl rfl List.filter_sublist
  | complete => exact .of_sublist rfl rfl (List.nil_sublist _)
  | fail => exact .of_sublist rfl rfl (List.nil_sublist _)
  | skip i due cancelled outcome =>
      obtain ⟨hnext, hentries⟩ := enrols_outcome outcome
      exact ⟨hnext, hentries⟩
  | activated i result runs outcome =>
      obtain ⟨hnext, hentries⟩ := enrols_outcome outcome
      exact ⟨hnext, hentries⟩
  | _ => exact .of_sublist rfl rfl (.refl _)

def shuts (k : Nat) : Effect → Bool
  | .offer j _ | .close j | .part j => j == k
  | _ => false

theorem any_shuts_iff {k : Nat} :
    effects.any (shuts k) = true ↔ k ∈ Gate.offered effects ++ Gate.dismissed effects := by
  simp only [List.any_eq_true, List.mem_append, Gate.offered, Gate.dismissed, List.mem_filterMap]
  constructor
  · rintro ⟨e, he, hshuts⟩
    cases e with
    | offer j error => exact .inl ⟨_, he, by simpa [shuts, Gate.Effect.offered?] using hshuts⟩
    | close j => exact .inr ⟨_, he, by simpa [shuts, Gate.Effect.dismissed?] using hshuts⟩
    | part j => exact .inr ⟨_, he, by simpa [shuts, Gate.Effect.dismissed?] using hshuts⟩
    | _ => cases hshuts
  · rintro (⟨e, he, hk⟩ | ⟨e, he, hk⟩)
    · cases e with
      | offer j error => exact ⟨_, he, by simpa [shuts, Gate.Effect.offered?] using hk⟩
      | _ => cases hk
    · cases e with
      | close j => exact ⟨_, he, by simpa [shuts, Gate.Effect.dismissed?] using hk⟩
      | part j => exact ⟨_, he, by simpa [shuts, Gate.Effect.dismissed?] using hk⟩
      | _ => cases hk

theorem mem_members_move (move : Move accepts s input t effects) (numbered : s.roster.Numbered)
    (distinct : (s.roster.members ++ input.attached?.toList).Nodup) (k : Nat) :
    k ∈ t.roster.members ↔
      k ∈ s.roster.members ++ input.attached?.toList ∧ effects.any (shuts k) = false := by
  have hperm := move.conserves numbered
  have hnodup := (hperm.nodup_iff).mpr distinct
  rw [List.nodup_append] at hnodup
  rw [← hperm.mem_iff, ← Bool.not_eq_true, any_shuts_iff, List.mem_append]
  constructor
  · intro hk
    exact ⟨.inr hk, fun hgone => hnodup.2.2 k hgone k hk rfl⟩
  · rintro ⟨hgone | hk, hnot⟩
    · exact absurd hgone hnot
    · exact hk

end Roster

namespace State

variable {s : State} {k : Nat}

def isOpen (s : State) (k : Nat) : Bool := (s.inboxes[k]?).any fun b => !b.closed

theorem isOpen_of_get {b : Inbox} (get : s.inboxes[k]? = some b) : s.isOpen k = !b.closed := by
  rw [isOpen, get]
  rfl

theorem isOpen_modifyInbox (j : Nat) {f : Inbox → Inbox} (same : ∀ b, (f b).closed = b.closed) :
    (s.modifyInbox j f).isOpen k = s.isOpen k := by
  simp only [isOpen, modifyInbox, List.getElem?_modify]
  cases s.inboxes[k]? with
  | none => rfl
  | some b => by_cases hj : j = k <;> simp [hj, same]

theorem isOpen_shut (j : Nat) {f : Inbox → Inbox} (shut : ∀ b, (f b).closed = true) :
    (s.modifyInbox j f).isOpen k = (s.isOpen k && !(j == k)) := by
  simp only [isOpen, modifyInbox, List.getElem?_modify]
  cases s.inboxes[k]? with
  | none => rfl
  | some b => by_cases hj : j = k <;> simp [hj, shut]

theorem closed_put (b : Inbox) (item : Item) : (b.put item).closed = b.closed := by
  cases h : b.abandoned <;> simp [Inbox.put, h]

theorem isOpen_deliver (s : State) (e : Effect) :
    (s.deliver e).isOpen k = (s.isOpen k && !shuts k e) := by
  have quiet (hshuts : shuts k e = false) : s.isOpen k = (s.isOpen k && !shuts k e) := by
    simp [hshuts]
  cases e with
  | replay cache j =>
      cases cache with
      | none => exact quiet rfl
      | some v => exact (isOpen_modifyInbox j fun b => closed_put b _).trans (quiet rfl)
  | offer j e => exact isOpen_shut j fun b => rfl
  | close j => exact isOpen_shut j fun b => rfl
  | part j => exact isOpen_shut j fun b => rfl
  | _ => exact quiet rfl

theorem isOpen_foldl_deliver (effects : List Effect) (s : State) :
    (effects.foldl deliver s).isOpen k = (s.isOpen k && !effects.any (shuts k)) := by
  induction effects generalizing s with
  | nil => simp
  | cons e rest ih =>
      rw [List.foldl_cons, ih, isOpen_deliver, List.any_cons, Bool.not_or, Bool.and_assoc]

theorem isOpen_step (s : State) (input : Input) :
    (s.step input).1.isOpen k =
      (s.isOpen k && !(s.gate.step s.accepts input).2.any (shuts k)) :=
  isOpen_foldl_deliver _ _

theorem isOpen_filled (s : State) (v : Value) : (s.filled v).isOpen k = s.isOpen k := by
  unfold filled
  induction s.gate.roster.members generalizing s with
  | nil => rfl
  | cons j rest ih => exact (ih _).trans (isOpen_modifyInbox j fun b => closed_put b _)

theorem isOpen_addInbox (s : State) :
    s.addInbox.isOpen k = true ↔ s.isOpen k = true ∨ k = s.inboxes.length := by
  simp only [isOpen, addInbox, List.getElem?_append]
  by_cases hk : k < s.inboxes.length
  · simp [hk, Nat.ne_of_lt hk]
  · have hnone : s.inboxes[k]? = none := List.getElem?_eq_none (Nat.le_of_not_lt hk)
    rw [if_neg hk, hnone]
    by_cases heq : k = s.inboxes.length
    · simp [heq]
    · have hlater : ([{}] : List Inbox)[k - s.inboxes.length]? = none :=
        List.getElem?_eq_none (by rw [List.length_singleton]; omega)
      simp [heq, hlater]

end State

/-- Consumers and inboxes are numbered alike, and the open inboxes are those of the consumers that
have a place at the gate. -/
structure Paired (s : State) : Prop where
  numbered : s.gate.roster.Numbered
  nextId : s.gate.roster.nextId = s.inboxes.length + 1
  ids : ∀ e ∈ s.gate.roster.entries, e.1 = e.2 + 1
  places : ∀ k, s.isOpen k = true ↔ k ∈ s.gate.roster.members

theorem paired_fresh (settings : RelaySettings) : Paired (.fresh settings) where
  numbered := Gate.Roster.numbered_empty
  nextId := rfl
  ids _ he := absurd he List.not_mem_nil
  places k := by simp [State.isOpen, State.fresh, Gate.State.fresh, Gate.Roster.members]

section Paired

variable {s : State} {past : List Moment} {a : Act} {input : Input}

theorem paired_step (numbered : s.gate.roster.Numbered)
    (distinct : (s.gate.roster.members ++ input.attached?.toList).Nodup)
    (coming : ∀ c, input.attached? = some c → c + 1 = s.gate.roster.nextId)
    (nextId : s.gate.roster.nextId + input.attached?.toList.length = s.inboxes.length + 1)
    (ids : ∀ e ∈ s.gate.roster.entries, e.1 = e.2 + 1)
    (places : ∀ k, s.isOpen k = true ↔ k ∈ s.gate.roster.members ++ input.attached?.toList) :
    Paired (s.step input).1 := by
  have hmove : Move s.accepts s.gate input _ _ := Gate.State.step_move s.gate input
  obtain ⟨hnext, hentries⟩ := enrols_move hmove
  refine ⟨?_, ?_, ?_, fun k => ?_⟩ <;> rw [State.gate_step]
  · exact hmove.numbered numbered
  · rw [hnext, nextId, (s.posts_step input).1]
  · intro e he
    rcases hentries e he with hold | ⟨c, hc, rfl⟩
    · exact ids e hold
    · exact (coming c hc).symm
  · rw [State.isOpen_step, mem_members_move hmove numbered distinct, ← places k]
    simp

theorem Paired.same {t : State} (h : Paired s) (gate : t.gate = s.gate)
    (length : t.inboxes.length = s.inboxes.length) (same : ∀ k, t.isOpen k = s.isOpen k) :
    Paired t where
  numbered := by rw [gate]; exact h.numbered
  nextId := by rw [gate, length]; exact h.nextId
  ids := by rw [gate]; exact h.ids
  places k := by rw [gate, same]; exact h.places k

theorem Paired.act (h : Paired s) (kept : Kept s past) (admitted : s.admits a = true) :
    Paired (s.act a) := by
  have hkeep (j : Nat) {f : Inbox → Inbox} (same : ∀ b, (f b).closed = b.closed) :
      Paired (s.modifyInbox j f) :=
    h.same rfl (List.length_modify _ _ _) fun _ => State.isOpen_modifyInbox j same
  have hplain {t : State} (h : Paired t) (distinct : t.gate.roster.members.Nodup) {input : Input}
      (nobody : input.attached? = none) : Paired (t.step input).1 := by
    refine paired_step h.numbered ?_ ?_ ?_ h.ids ?_ <;> rw [nobody]
    · rwa [Option.toList_none, List.append_nil]
    · exact nofun
    · exact h.nextId
    · rw [Option.toList_none, List.append_nil]
      exact h.places
  cases a with
  | attach =>
      have hcomers := (kept.comers (a := .attach) admitted rfl).1
      apply paired_step (s := s.addInbox) h.numbered hcomers
      · intro c hc
        cases hc
        exact h.nextId.symm
      · simp only [State.addInbox, List.length_append, List.length_singleton]
        exact congrArg (· + 1) h.nextId
      · exact h.ids
      · intro k
        rw [State.isOpen_addInbox, List.mem_append, h.places k]
        simp [Gate.Input.attached?, State.addInbox]
  | emit i v =>
      cases hcurrent : s.gate.isCurrent i with
      | false =>
          rw [State.act, State.emit_stale hcurrent]
          exact h
      | true =>
          have hgate : (s.filled v).gate = s.gate := (State.frame_foldl_put _ v s).1
          rw [State.act, State.emit_current hcurrent]
          have hdistinct : (s.filled v).gate.roster.members.Nodup := by
            rw [hgate]
            exact kept.distinct
          have hfilled : Paired (s.filled v) :=
            h.same hgate (State.length_foldl_put _ v s) fun _ => s.isOpen_filled v
          have hstep : Paired ((s.filled v).step (.update i (s.keep v))).1 :=
            hplain hfilled hdistinct rfl
          exact hstep
  | take j =>
      refine hkeep j fun b => ?_
      unfold Inbox.take
      cases b.delivered[b.taken]? <;> rfl
  | takeAll j => exact hkeep j fun b => rfl
  | abandon j => exact hkeep j fun b => rfl
  | gate input =>
      refine hplain h kept.distinct ?_
      cases input with
      | attach => cases admitted
      | _ => rfl

end Paired

end Lifecycle.Relay
