import Lifecycle.Relay.Scenario

/-!
# Streams

A stream brings values and failures, portion after portion.  A session relays it: it emits the
values in order, and it fails with the first failure or completes at the end of the stream.
-/

namespace Lifecycle.Relay.Scenario

def StreamItem.brings? : StreamItem → Option Relay.Item
  | .value v => some (.value v)
  | .failure e => some (.failure e)
  | .pause _ | .panic _ => none

namespace Stream

variable {s t u : Stream} {items more : List Relay.Item} {n : Nat}

/-- The stream once it has come `n` times to its next portion. -/
def after? (s : Stream) : Nat → Option Stream
  | 0 => some s
  | n + 1 => s.next?.bind fun t => t.after? n

def brings (s : Stream) : Nat → List Relay.Item
  | 0 => []
  | n + 1 => s.items.filterMap StreamItem.brings? ++ s.next?.elim [] fun t => t.brings n

def Calm (s : Stream) : Prop :=
  ∀ n t, s.after? n = some t → ∀ p, .panic p ∉ t.items

theorem Calm.not_mem (h : s.Calm) (p : Panic) : .panic p ∉ s.items := h 0 s rfl p

theorem Calm.next (h : s.Calm) (next : s.next? = some t) : t.Calm := by
  intro n u hu
  refine h (n + 1) u ?_
  rw [after?, next]
  exact hu

theorem Calm.within {rest : List StreamItem} (h : s.Calm)
    (remains : ∀ p, .panic p ∈ rest → .panic p ∈ s.items) : Calm { s with items := rest } := by
  intro n t ht p hp
  cases n with
  | zero =>
      cases ht
      exact h.not_mem p (remains p hp)
  | succ n => exact h (n + 1) t ht p hp

theorem calm_of_portions (first : ∀ p, .panic p ∉ s.items)
    (later : ∀ n items, s.later n = some items → ∀ p, .panic p ∉ items) : s.Calm := by
  intro n
  induction n generalizing s with
  | zero =>
      rintro t ⟨⟩
      exact first
  | succ n ih =>
      intro t ht
      obtain ⟨u, hu, hafter⟩ := Option.bind_eq_some_iff.mp ht
      obtain ⟨items, hitems, rfl⟩ := Option.map_eq_some_iff.mp hu
      exact ih (later 0 items hitems) (fun k => later (k + 1)) t hafter

/-- Having brought these items the stream goes on as `t`. -/
def GoesOn (s : Stream) (items : List Relay.Item) (t : Stream) : Prop :=
  ∃ n, ∀ m, s.brings (n + m + 1) = items ++ t.brings (m + 1) ∧
    s.after? (n + m + 1) = t.after? (m + 1)

namespace GoesOn

theorem refl (s : Stream) : s.GoesOn [] s :=
  ⟨0, fun m => by rw [Nat.zero_add]; exact ⟨rfl, rfl⟩⟩

theorem trans (h₁ : s.GoesOn items t) (h₂ : t.GoesOn more u) : s.GoesOn (items ++ more) u := by
  obtain ⟨n, hn⟩ := h₁
  obtain ⟨k, hk⟩ := h₂
  refine ⟨n + k, fun m => ?_⟩
  obtain ⟨hbrings, hafter⟩ := hn (k + m)
  rw [show n + k + m + 1 = n + (k + m) + 1 by omega, hbrings, hafter, (hk m).1, (hk m).2,
    List.append_assoc]
  exact ⟨rfl, rfl⟩

theorem within {rest : List StreamItem}
    (brings : s.items.filterMap StreamItem.brings? =
      items ++ rest.filterMap StreamItem.brings?) :
    s.GoesOn items { s with items := rest } := by
  refine ⟨0, fun m => ⟨?_, ?_⟩⟩
  · rw [Nat.zero_add, Stream.brings, Stream.brings, brings, List.append_assoc]
    rfl
  · rw [Nat.zero_add]
    rfl

theorem next (brings : s.items.filterMap StreamItem.brings? = items) (next : s.next? = some t) :
    s.GoesOn items t := by
  refine ⟨1, fun m => ?_⟩
  rw [show 1 + m + 1 = (m + 1) + 1 by omega, Stream.brings, after?, next, brings]
  exact ⟨rfl, rfl⟩

theorem portion (h : s.GoesOn items t) :
    ∃ n, s.brings n = items ++ t.items.filterMap StreamItem.brings? ∧ s.after? n = t.next? := by
  obtain ⟨n, hn⟩ := h
  obtain ⟨hbrings, hafter⟩ := hn 0
  refine ⟨n + 1, ?_, ?_⟩
  · rw [hbrings, Stream.brings]
    cases t.next? <;> simp [Stream.brings]
  · rw [hafter, after?]
    cases t.next? <;> rfl

end GoesOn

end Stream

/-! ## What a session does with its stream -/

/-- What a session does with its stream.  The flags tell whether the relay takes it, which it does
unless the session is over. -/
inductive Deed where
  | opened (call : Nat)
  | value (v : Value) (emitted : Bool)
  | failure (e : ProducerError) (failed : Bool)
  | ended (completed : Bool)
  deriving DecidableEq

def Deed.gives? : Deed → Option Relay.Item
  | .value v true => some (.value v)
  | .failure e true => some (.failure e)
  | _ => none

def Deed.isLast : Deed → Bool
  | .failure _ failed => failed
  | .ended completed => completed
  | _ => false

def relaying (call : Nat) (vs : List Value) : List Deed := .opened call :: vs.map (.value · true)

/-- A session has relayed its stream up to the first failure or to the end, or has come somewhere
on the way. -/
inductive Relayed (call : Nat) (s : Stream) : List Deed → Prop
  | underway (n : Nat) (vs : List Value) (more : List Relay.Item)
      (brings : s.brings n = vs.map .value ++ more) : Relayed call s (relaying call vs)
  | failed (n : Nat) (vs : List Value) (e : ProducerError) (more : List Relay.Item)
      (brings : s.brings n = vs.map .value ++ .failure e :: more) :
      Relayed call s (relaying call vs ++ [.failure e true])
  | completed (n : Nat) (vs : List Value) (brings : s.brings n = vs.map .value)
      (finished : s.after? n = none) : Relayed call s (relaying call vs ++ [.ended true])

section Deeds

variable {call : Nat} {vs more : List Value} {s t : Stream}

theorem gives_relaying (call : Nat) (vs : List Value) :
    (relaying call vs).filterMap Deed.gives? = vs.map .value := by
  rw [relaying, List.filterMap_cons_none rfl, List.filterMap_map]
  exact congrFun List.filterMap_eq_map vs

theorem any_isLast_relaying (call : Nat) (vs : List Value) :
    (relaying call vs).any Deed.isLast = false := by
  simp [relaying, Deed.isLast]

theorem any_isLast_concat (vs : List Value) {last : Deed} (isLast : last.isLast = true) :
    (vs.map (Deed.value · true) ++ [last]).any Deed.isLast = true := by
  simp [isLast]

theorem relaying_append (call : Nat) (vs more : List Value) :
    relaying call vs ++ more.map (.value · true) = relaying call (vs ++ more) := by
  simp [relaying]

theorem Stream.GoesOn.underway (h : s.GoesOn (vs.map .value) t) :
    Relayed call s (relaying call vs) := by
  obtain ⟨n, hbrings, _⟩ := h.portion
  exact .underway n vs _ hbrings

theorem Stream.GoesOn.failed {e : ProducerError} {later : List Relay.Item}
    (h : s.GoesOn (vs.map .value) t)
    (brings : t.items.filterMap StreamItem.brings? = more.map .value ++ .failure e :: later) :
    Relayed call s (relaying call (vs ++ more) ++ [.failure e true]) := by
  obtain ⟨n, hbrings, _⟩ := h.portion
  rw [brings, ← List.append_assoc, ← List.map_append] at hbrings
  exact .failed n _ e later hbrings

theorem Stream.GoesOn.completed (h : s.GoesOn (vs.map .value) t)
    (brings : t.items.filterMap StreamItem.brings? = more.map .value) (finished : t.next? = none) :
    Relayed call s (relaying call (vs ++ more) ++ [.ended true]) := by
  obtain ⟨n, hbrings, hafter⟩ := h.portion
  rw [brings, ← List.map_append] at hbrings
  exact .completed n _ hbrings (hafter.trans finished)

end Deeds

end Lifecycle.Relay.Scenario
