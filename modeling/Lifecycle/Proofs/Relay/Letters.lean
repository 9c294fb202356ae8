import Lifecycle.Proofs.Gate.Consistency
import Lifecycle.Proofs.Gate.Failures
import Lifecycle.Relay.State

/-!
# What the gate of a relay puts into the inboxes

An inbox is given the value that is kept when its consumer comes, and a failure when that ends the
session.  Everything else comes from the sessions themselves.
-/

namespace Lifecycle.Relay

open Gate.State (Move Outcome Paced Manned)

/-- What an effect of the gate puts into the inbox with the given number. -/
def letter? (k : Nat) : Effect → Option Item
  | .replay (some v) j => if j = k then some (.value v) else none
  | .offer j e => if j = k then some (.failure e) else none
  | _ => none

def letters (k : Nat) (effects : List Effect) : List Item := effects.filterMap (letter? k)

@[simp] theorem letters_nil (k : Nat) : letters k [] = [] := rfl

@[simp] theorem letters_append (k : Nat) (a b : List Effect) :
    letters k (a ++ b) = letters k a ++ letters k b := List.filterMap_append

theorem letters_cons (k : Nat) (e : Effect) (rest : List Effect) :
    letters k (e :: rest) = (letter? k e).toList ++ letters k rest := by
  unfold letters
  rw [List.filterMap_cons]
  cases letter? k e <;> rfl

theorem letters_eq_nil {k : Nat} {effects : List Effect} (h : ∀ e ∈ effects, letter? k e = none) :
    letters k effects = [] :=
  List.filterMap_eq_nil_iff.mpr h

theorem letters_offers {k : Nat} {members : List Nat} (distinct : members.Nodup)
    (e : ProducerError) :
    letters k (members.map (.offer · e)) = if k ∈ members then [.failure e] else [] := by
  induction members with
  | nil => rfl
  | cons j rest ih =>
      rw [List.nodup_cons] at distinct
      rw [List.map_cons, letters_cons, ih distinct.2]
      by_cases hj : j = k
      · subst hj
        simp [letter?, distinct.1]
      · simp [letter?, hj, Ne.symm hj]

@[simp] theorem letters_closes (k : Nat) (members : List Nat) :
    letters k (members.map .close) = [] := by
  apply letters_eq_nil
  intro effect heffect
  obtain ⟨j, _, rfl⟩ := List.mem_map.mp heffect
  rfl

@[simp] theorem letters_tearDown (k : Nat) (s : GateState) : letters k s.tearDown.2 = [] := by
  simp only [Gate.State.tearDown]
  cases s.current <;> rfl

theorem letters_failLive {k : Nat} {s : GateState} (distinct : s.roster.members.Nodup)
    (accepts : Nat → Bool) (e : ProducerError) :
    letters k (s.failLive accepts e).2 = if k ∈ s.roster.members then [.failure e] else [] := by
  have hreport (p : Prop) [Decidable p] : letters k (if p then s.reportEffects e else []) = [] := by
    split <;> rfl
  simp only [Gate.State.failLive, letters_append, letters_offers distinct, letters_tearDown,
    hreport]
  simp [letters_cons, letter?]

namespace Inbox

theorem put_abandoned {b : Inbox} (h : b.abandoned = true) (item : Item) : b.put item = b := by
  simp [put, h]

theorem put_read {b : Inbox} (h : b.abandoned = false) (item : Item) :
    b.put item = { b with delivered := b.delivered ++ [item] } := by
  simp [put, h]

@[simp] theorem abandoned_put (b : Inbox) (item : Item) : (b.put item).abandoned = b.abandoned := by
  cases h : b.abandoned <;> simp [put, h]

structure Gets (b c : Inbox) (items : List Item) : Prop where
  abandoned : c.abandoned = b.abandoned
  delivered : c.delivered = b.delivered ++ if b.abandoned then [] else items

theorem Gets.refl (b : Inbox) : Gets b b [] := ⟨rfl, by simp⟩

theorem Gets.trans {b c d : Inbox} {first later : List Item} (h₁ : Gets b c first)
    (h₂ : Gets c d later) : Gets b d (first ++ later) where
  abandoned := h₂.abandoned.trans h₁.abandoned
  delivered := by
    rw [h₂.delivered, h₁.delivered, h₁.abandoned]
    cases b.abandoned <;> simp

theorem gets_put (b : Inbox) (item : Item) : Gets b (b.put item) [item] := by
  cases h : b.abandoned with
  | true =>
      rw [put_abandoned h]
      exact ⟨rfl, by simp [h]⟩
  | false =>
      rw [put_read h]
      exact ⟨rfl, by simp [h]⟩

theorem Gets.close {b c : Inbox} {items : List Item} (h : Gets b c items) :
    Gets b c.close items := ⟨h.abandoned, h.delivered⟩

end Inbox

namespace State

/-- Each inbox of `s` is still there in `t`, and has got what `items` says. -/
def Posts (s t : State) (items : Nat → List Item) : Prop :=
  t.inboxes.length = s.inboxes.length ∧
    ∀ k (b : Inbox), s.inboxes[k]? = some b → ∃ c, t.inboxes[k]? = some c ∧ b.Gets c (items k)

theorem Posts.refl (s : State) : Posts s s fun _ => [] :=
  ⟨rfl, fun _ b h => ⟨b, h, .refl b⟩⟩

theorem Posts.trans {s t u : State} {first later : Nat → List Item} (h₁ : Posts s t first)
    (h₂ : Posts t u later) : Posts s u fun k => first k ++ later k := by
  refine ⟨h₂.1.trans h₁.1, fun k b hb => ?_⟩
  obtain ⟨c, hc, hget⟩ := h₁.2 k b hb
  obtain ⟨d, hd, hlater⟩ := h₂.2 k c hc
  exact ⟨d, hd, hget.trans hlater⟩

theorem posts_modifyInbox (s : State) (j : Nat) {f : Inbox → Inbox} {items : List Item}
    (h : ∀ b : Inbox, b.Gets (f b) items) :
    Posts s (s.modifyInbox j f) fun k => if j = k then items else [] := by
  refine ⟨List.length_modify _ _ _, fun k b hb => ?_⟩
  simp only [modifyInbox, List.getElem?_modify, hb]
  by_cases hj : j = k
  · exact ⟨f b, by simp [hj], by simpa [hj] using h b⟩
  · exact ⟨b, by simp [hj], by simpa [hj] using Inbox.Gets.refl b⟩

theorem posts_deliver (s : State) (e : Effect) :
    Posts s (s.deliver e) fun k => (letter? k e).toList := by
  have quiet (hletter : ∀ k, letter? k e = none) : Posts s s fun k => (letter? k e).toList := by
    simpa [hletter] using Posts.refl s
  cases e with
  | replay cache j =>
      cases cache with
      | none => exact quiet fun _ => rfl
      | some v =>
          have h := s.posts_modifyInbox j fun b => b.gets_put (.value v)
          have hitems : (fun k => if j = k then [Item.value v] else []) =
              fun k => (letter? k (.replay (some v) j)).toList := by
            funext k
            by_cases hj : j = k <;> simp [letter?, hj]
          rwa [hitems] at h
  | offer j e =>
      have h := s.posts_modifyInbox j fun b => (b.gets_put (.failure e)).close
      have hitems : (fun k => if j = k then [Item.failure e] else []) =
          fun k => (letter? k (.offer j e)).toList := by
        funext k
        by_cases hj : j = k <;> simp [letter?, hj]
      rwa [hitems] at h
  | close j =>
      have h := s.posts_modifyInbox j fun b => (Inbox.Gets.refl b).close
      simpa [letter?, deliver] using h
  | part j =>
      have h := s.posts_modifyInbox j fun b => (Inbox.Gets.refl b).close
      simpa [letter?, deliver] using h
  | _ => exact quiet fun _ => rfl

theorem posts_foldl_deliver (effects : List Effect) (s : State) :
    Posts s (effects.foldl deliver s) fun k => letters k effects := by
  induction effects generalizing s with
  | nil => exact Posts.refl s
  | cons e rest ih =>
      have h := (s.posts_deliver e).trans (ih (s.deliver e))
      simpa only [letters_cons, List.foldl_cons] using h

theorem frame_foldl_deliver (effects : List Effect) (s : State) :
    (effects.foldl deliver s).gate = s.gate ∧ (effects.foldl deliver s).conflate = s.conflate := by
  induction effects generalizing s with
  | nil => exact ⟨rfl, rfl⟩
  | cons e rest ih =>
      have hone : (s.deliver e).gate = s.gate ∧ (s.deliver e).conflate = s.conflate := by
        cases e with
        | replay cache j => cases cache <;> exact ⟨rfl, rfl⟩
        | _ => exact ⟨rfl, rfl⟩
      exact ⟨(ih _).1.trans hone.1, (ih _).2.trans hone.2⟩

theorem gate_step (s : State) (input : Input) :
    (s.step input).1.gate = (s.gate.step s.accepts input).1 :=
  (frame_foldl_deliver _ _).1

theorem conflate_step (s : State) (input : Input) : (s.step input).1.conflate = s.conflate :=
  (frame_foldl_deliver _ _).2

theorem posts_step (s : State) (input : Input) :
    Posts s (s.step input).1 fun k => letters k (s.gate.step s.accepts input).2 := by
  have h := posts_foldl_deliver (s.gate.step s.accepts input).2
    { s with gate := (s.gate.step s.accepts input).1 }
  exact ⟨h.1, h.2⟩

def filled (s : State) (v : Value) : State :=
  s.gate.roster.members.foldl (fun s k => s.modifyInbox k (·.put (.value v))) s

theorem emit_current {s : State} {i : Nat} (current : s.gate.isCurrent i = true) (v : Value) :
    s.emit i v = (((s.filled v).step (.update i (s.keep v))).1, .ok ()) := by
  rw [emit, if_pos current]
  rfl

theorem emit_stale {s : State} {i : Nat} (stale : s.gate.isCurrent i = false) (v : Value) :
    s.emit i v = (s, .error .inactive) := by
  rw [emit, if_neg (by simp [stale])]

theorem frame_foldl_put (members : List Nat) (v : Value) (s : State) :
    (members.foldl (fun s k => s.modifyInbox k (·.put (.value v))) s).gate = s.gate ∧
      (members.foldl (fun s k => s.modifyInbox k (·.put (.value v))) s).conflate =
        s.conflate := by
  induction members generalizing s with
  | nil => exact ⟨rfl, rfl⟩
  | cons j rest ih => exact ih (s.modifyInbox j (·.put (.value v)))

theorem posts_foldl_put {members : List Nat} (distinct : members.Nodup) (v : Value) (s : State) :
    Posts s (members.foldl (fun s k => s.modifyInbox k (·.put (.value v))) s) fun k =>
      if k ∈ members then [.value v] else [] := by
  induction members generalizing s with
  | nil => exact Posts.refl s
  | cons j rest ih =>
      rw [List.nodup_cons] at distinct
      have hone := s.posts_modifyInbox j fun b => b.gets_put (.value v)
      have h := hone.trans (ih distinct.2 (s.modifyInbox j (·.put (.value v))))
      have hitems : (fun k => (if j = k then [Item.value v] else []) ++
          if k ∈ rest then [.value v] else []) =
            fun k => if k ∈ j :: rest then [.value v] else [] := by
        funext k
        by_cases hj : j = k
        · subst hj
          simp [distinct.1]
        · simp [hj, Ne.symm hj]
      rwa [hitems] at h

theorem length_foldl_put (members : List Nat) (v : Value) (s : State) :
    (members.foldl (fun s k => s.modifyInbox k (·.put (.value v))) s).inboxes.length =
      s.inboxes.length := by
  induction members generalizing s with
  | nil => rfl
  | cons j rest ih => exact (ih _).trans (List.length_modify _ _ _)

end State

/-! ## The moves of a gate -/

def failure? (c : Nat) : Input → Option ProducerError
  | .fail i e => if i = c then some e else none
  | .activated i result => if i = c then Gate.State.HookEnd.failure result else none
  | _ => none

def farewell (c k : Nat) (s t : GateState) (input : Input) : List Item :=
  if k ∈ s.roster.members ∧ k ∉ t.roster.members then (failure? c input).toList.map .failure
  else []

section Gate

variable {accepts : Nat → Bool} {s t : GateState} {input : Input} {effects : List Effect}
  {c k : Nat}

theorem farewell_of_kept (kept : k ∈ s.roster.members → k ∈ t.roster.members) :
    farewell c k s t input = [] := by
  rw [farewell, if_neg]
  rintro ⟨before, after⟩
  exact after (kept before)

theorem farewell_of_silent (silent : failure? c input = none) : farewell c k s t input = [] := by
  rw [farewell, silent]
  split <;> rfl

theorem farewell_of_absent (absent : k ∉ s.roster.members) : farewell c k s t input = [] :=
  farewell_of_kept fun hk => absurd hk absent

theorem letters_replay_other {cache : Option Value} {j : Nat} (other : j ≠ k)
    (rest : List Effect) : letters k (.replay cache j :: rest) = letters k rest := by
  rw [letters_cons]
  cases cache with
  | none => rfl
  | some v => simp [letter?, other]

theorem letters_replay_self (cache : Option Value) (rest : List Effect) :
    letters k (.replay cache k :: rest) = cache.toList.map .value ++ letters k rest := by
  rw [letters_cons]
  cases cache <;> simp [letter?]

theorem letters_failure {e : ProducerError} (distinct : s.roster.members.Nodup)
    (removed : t.roster.members = []) (raised : k ∈ s.roster.members → failure? c input = some e) :
    letters k (s.failLive accepts e).2 = farewell c k s t input := by
  rw [letters_failLive distinct, farewell, removed]
  by_cases hk : k ∈ s.roster.members
  · simp [hk, raised hk]
  · simp [hk]

/-- A gate puts nothing into an inbox but the kept value at the start and a failure at the end. -/
theorem letters_move {n : Nat} (move : Move accepts s input t effects) (paced : Paced s n)
    (distinct : s.roster.members.Nodup) (other : input.attached? ≠ some k)
    (live : k ∈ s.roster.members → s.isCurrent c = true) :
    letters k effects = farewell c k s t input := by
  cases move with
  | refuse => rw [farewell_of_kept id]; rfl
  | begin j =>
      have hne : j ≠ k := fun h => other (by rw [h]; rfl)
      rw [letters_replay_other hne, farewell_of_silent rfl]
      rfl
  | join j =>
      have hne : j ≠ k := fun h => other (by rw [h]; rfl)
      rw [letters_replay_other hne, farewell_of_silent rfl]
      rfl
  | rejoin j =>
      have hne : j ≠ k := fun h => other (by rw [h]; rfl)
      rw [letters_replay_other hne, farewell_of_silent rfl]
      rfl
  | partLast =>
      rw [farewell_of_silent rfl, letters_append, letters_append, letters_tearDown]
      rfl
  | elapse =>
      rw [farewell_of_silent rfl, letters_append, letters_tearDown]
      rfl
  | complete =>
      rw [farewell_of_silent rfl, letters_append, letters_append, letters_closes,
        letters_tearDown]
      rfl
  | fail i e current =>
      apply letters_failure distinct rfl
      intro hk
      have hi : i = c := paced.current_unique current (live hk)
      simp [failure?, hi]
  | failLate => rw [farewell_of_kept id]; rfl
  | skip i due cancelled outcome =>
      rw [farewell_of_silent rfl, letters_cons]
      cases outcome with
      | deserted =>
          rw [letters_append, letters_tearDown]
          rfl
      | active => rfl
      | late => rfl
  | activated i result runs outcome =>
      rw [letters_cons]
      change letters k _ = _
      generalize hfailure : Gate.State.HookEnd.failure result = failure at outcome
      cases outcome with
      | failed e current =>
          rw [Gate.State.isCurrent_setActivation] at current
          apply letters_failure (s := s.setActivation i .ended) distinct rfl
          intro hk
          have hi : i = c := paced.current_unique current (live hk)
          simp [failure?, hi, hfailure]
      | deserted _ _ empty =>
          have hnone : s.roster.members = [] := Gate.Roster.isEmpty_iff.mp empty
          rw [farewell_of_absent (by simp [hnone]), letters_append, letters_tearDown]
          rfl
      | active =>
          have hsilent : failure? c (.activated i result) = none := by simp [failure?, hfailure]
          rw [farewell_of_silent hsilent]
          rfl
      | late =>
          have hkept : k ∈ s.roster.members → k ∈ (s.setActivation i .ended).roster.members := id
          rw [farewell_of_kept hkept]
          cases failure <;> rfl
  | deactivated j panic =>
      rw [farewell_of_silent rfl]
      cases panic <;> rfl
  | drop =>
      rw [farewell_of_silent rfl]
      simp only [Gate.State.drop]
      cases s.current <;> rfl
  | _ => rw [farewell_of_silent rfl]; rfl

end Gate

end Lifecycle.Relay
