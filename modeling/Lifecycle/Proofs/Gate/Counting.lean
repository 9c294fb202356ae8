import Lifecycle.Proofs.Gate.Telling

/-!
# The count of consumers, from the events

Who hears the events of a gate knows how many consumers it has.  Each event says how the count
changes, or leaves it as it is; each step of the gate publishes what it has done to the count, and
nothing else.
-/

namespace Lifecycle

namespace Event

/-- The count of consumers after the event, for one who has heard of that many before. -/
def recount (e : Event) (count : Nat) : Nat :=
  match e.kind with
  | .consumerAttached | .consumerDetached => e.consumers.getD count
  | .producerCompleted | .producerFailed => 0
  | _ => count

/-- What the event may say of its consumers when there are that many before it. -/
def Credible (e : Event) (count : Nat) : Prop :=
  match e.kind with
  | .consumerAttached => e.consumers = some (count + 1)
  | .consumerDetached => ∃ left, e.consumers = some left ∧ left + 1 = count
  | .producerCompleted => e.consumers = some count
  | .producerFailed => ∃ told ≤ count, e.consumers = some told
  | _ => True

def unnumbered (e : Event) : Event := { e with seq := 0 }

end Event

namespace Gate

/-! ## Counting along events -/

section Events

variable {count : Nat} {e : Event} {events rest : List Event}

def recounted (count : Nat) (events : List Event) : Nat :=
  events.foldl (fun count e => e.recount count) count

def Tallies : Nat → List Event → Prop
  | _, [] => True
  | count, e :: rest => e.Credible count ∧ Tallies (e.recount count) rest

@[simp] theorem recounted_nil (count : Nat) : recounted count [] = count := rfl

@[simp] theorem recounted_cons (count : Nat) (e : Event) (rest : List Event) :
    recounted count (e :: rest) = recounted (e.recount count) rest := rfl

@[simp] theorem recounted_append (count : Nat) (a b : List Event) :
    recounted count (a ++ b) = recounted (recounted count a) b := List.foldl_append

@[simp] theorem tallies_nil (count : Nat) : Tallies count [] := trivial

@[simp] theorem tallies_cons :
    Tallies count (e :: rest) ↔ e.Credible count ∧ Tallies (e.recount count) rest := Iff.rfl

theorem tallies_append :
    Tallies count (events ++ rest) ↔
      Tallies count events ∧ Tallies (recounted count events) rest := by
  induction events generalizing count with
  | nil => simp
  | cons e more ih => simp [ih, and_assoc]

theorem Tallies.credible (h : Tallies count (events ++ e :: rest)) :
    e.Credible (recounted count events) :=
  (tallies_append.mp h).2.1

theorem recounted_unnumbered (count : Nat) (events : List Event) :
    recounted count (events.map Event.unnumbered) = recounted count events := by
  induction events generalizing count with
  | nil => rfl
  | cons e rest ih => exact ih _

theorem tallies_unnumbered :
    Tallies count (events.map Event.unnumbered) ↔ Tallies count events := by
  induction events generalizing count with
  | nil => rfl
  | cons e rest ih => exact and_congr Iff.rfl ih

def heardFrom (name : String) (bus : Bus) (all : List Event) : List Event :=
  ((all.foldl Bus.publish bus).published.toList.drop bus.count).filter
    fun e => e.source == some name

theorem heardFrom_eq (name : String) (bus : Bus) (all : List Event) :
    heardFrom name bus all = (all.mapIdx fun n e => { e with seq := bus.count + n + 1 }).filter
      fun e => e.source == some name := by
  rw [heardFrom, Bus.published_foldl, Bus.count, ← Array.length_toList, List.drop_left]

theorem heardFrom_unnumbered (name : String) (bus : Bus) (all : List Event) :
    (heardFrom name bus all).map Event.unnumbered =
      (all.filter fun e => e.source == some name).map Event.unnumbered := by
  have hfilter (events : List Event) :
      (events.filter fun e => e.source == some name).map Event.unnumbered =
        (events.map Event.unnumbered).filter fun e => e.source == some name := by
    rw [List.filter_map]
    rfl
  rw [heardFrom_eq, hfilter, hfilter]
  congr 1
  apply List.ext_getElem
  · simp
  · intro n h₁ h₂
    simp [Event.unnumbered]

theorem heardFrom_ordered (name : String) (bus : Bus) (all : List Event) :
    (heardFrom name bus all).Pairwise fun e f => e.seq < f.seq := by
  rw [heardFrom_eq]
  apply List.Pairwise.filter
  rw [List.pairwise_iff_getElem]
  intro i j hi hj hij
  simpa using hij

end Events

/-! ## The events of a step -/

section Effects

variable {γ κ : Type}

@[simp] theorem published_nil : published ([] : List (Effect γ κ)) = [] := rfl

theorem published_cons (effect : Effect γ κ) (rest : List (Effect γ κ)) :
    published (effect :: rest) = effect.event?.toList ++ published rest := by
  unfold published
  rw [List.filterMap_cons]
  cases effect.event? <;> rfl

@[simp] theorem published_append (a b : List (Effect γ κ)) :
    published (a ++ b) = published a ++ published b := List.filterMap_append

theorem published_eq_nil {effects : List (Effect γ κ)} (h : ∀ e ∈ effects, e.event? = none) :
    published effects = [] := List.filterMap_eq_nil_iff.mpr h

@[simp] theorem published_close (members : List γ) :
    published (members.map .close : List (Effect γ κ)) = [] :=
  published_eq_nil (List.forall_mem_map.mpr fun _ _ => rfl)

@[simp] theorem published_offers (members : List γ) (e : ProducerError) :
    published (members.map (.offer · e) : List (Effect γ κ)) = [] :=
  published_eq_nil (List.forall_mem_map.mpr fun _ _ => rfl)

@[simp] theorem published_reportEffects (s : State γ κ) (e : ProducerError) :
    published (s.reportEffects e) = [s.errorEvent e] := rfl

@[simp] theorem published_drop (s : State γ κ) : published s.drop.2 = [] := by
  simp only [State.drop]
  cases s.current <;> rfl

variable [Inhabited κ]

@[simp] theorem published_tearDown (s : State γ κ) : published s.tearDown.2 = [] := by
  simp only [State.tearDown]
  cases s.current <;> rfl

theorem published_failLive (accepts : γ → Bool) (s : State γ κ) (e : ProducerError) :
    published (s.failLive accepts e).2 =
      { s.event .producerFailed (some (s.roster.members.countP accepts)) with
          error := some e.text } ::
        if s.roster.members.countP accepts = 0 then [s.errorEvent e] else [] := by
  simp only [State.failLive, published_append, published_offers, published_tearDown]
  split <;> rfl

end Effects

namespace Roster

variable {γ : Type} {r : Roster γ} {id : ConsumerId} {c : γ}

theorem count_eq (r : Roster γ) : r.count = r.members.length := by
  simp [count, members]

@[simp] theorem count_insert (r : Roster γ) (c : γ) : (r.insert c).count = r.count + 1 := by
  simp [count, insert]

@[simp] theorem count_clear (r : Roster γ) : r.clear.count = 0 := rfl

theorem Numbered.count_erase (h : Numbered r) (attached : r.find? id = some c) :
    (r.erase id).count + 1 = r.count := by
  simpa [count_eq] using (h.members_perm attached).length_eq.symm

/-- A lease that has been given up is not given out again. -/
structure Spent (r : Roster γ) (id : ConsumerId) : Prop where
  given : id < r.nextId
  absent : r.find? id = none

theorem Spent.insert (h : Spent r id) (c : γ) : Spent (r.insert c) id where
  given := Nat.lt_succ_of_lt h.given
  absent := by
    have hne : id ≠ r.nextId := Nat.ne_of_lt h.given
    have habsent := h.absent
    simp only [find?, Roster.insert, List.lookup_append] at habsent ⊢
    simp [habsent, List.lookup_cons, beq_eq_false_iff_ne.mpr hne]

theorem Spent.erase (h : Spent r id) (other : ConsumerId) : Spent (r.erase other) id where
  given := h.given
  absent := by
    have habsent := h.absent
    simp only [find?, Roster.erase, List.lookup_eq_none_iff] at habsent ⊢
    exact fun e he => habsent e (List.mem_filter.mp he).1

theorem Spent.clear (given : id < r.nextId) : Spent r.clear id := ⟨given, rfl⟩

end Roster

namespace State

variable {γ κ : Type} {accepts : γ → Bool} {s t : State γ κ} {effects : List (Effect γ κ)}

structure Counts (s t : State γ κ) (events : List Event) : Prop where
  own : ∀ e ∈ events, e.source = some s.name
  tallies : Tallies s.roster.count events
  total : recounted s.roster.count events = t.roster.count

theorem Counts.trans {u : State γ κ} {events later : List Event} (first : Counts s t events)
    (second : Counts t u later) (same : t.name = s.name) : Counts s u (events ++ later) where
  own e he := (List.mem_append.mp he).elim (first.own e) fun h => same ▸ second.own e h
  tallies := tallies_append.mpr ⟨first.tallies, first.total.symm ▸ second.tallies⟩
  total := by rw [recounted_append, first.total, second.total]

/-- What the events of one step say. -/
structure Shows (s t : State γ κ) (events : List Event) : Prop extends Counts s t events where
  active : ∀ e ∈ events, e.kind = .producerActive → e.consumers = some t.roster.count
  ended : ∀ e ∈ events, e.kind = .producerCompleted ∨ e.kind = .producerFailed →
    t.roster = s.roster.clear

theorem shows_nil (same : t.roster = s.roster) : Shows s t [] where
  own := by simp
  tallies := trivial
  total := by rw [same, recounted_nil]
  active := by simp
  ended := by simp

theorem shows_error (same : t.roster = s.roster) (e : ProducerError) :
    Shows s t [s.errorEvent e] where
  own := by simp [errorEvent, event]
  tallies := by simp [errorEvent, event, Event.Credible]
  total := by simp [errorEvent, event, Event.recount, same]
  active := by simp [errorEvent, event]
  ended := by simp [errorEvent, event]

theorem Shows.staged {i : Nat} {stage : Stage} {events : List Event}
    (h : Shows (s.setActivation i stage) t events) : Shows s t events :=
  ⟨⟨h.own, h.tallies, h.total⟩, h.active, h.ended⟩

variable [Inhabited κ]

@[simp] theorem roster_tearDown (s : State γ κ) : s.tearDown.1.roster = s.roster := rfl

theorem shows_failLive (s : State γ κ) (e : ProducerError) :
    Shows s (s.failLive accepts e).1 (published (s.failLive accepts e).2) := by
  have hle : s.roster.members.countP accepts ≤ s.roster.count := by
    rw [Roster.count_eq]
    exact List.countP_le_length
  have hroster : (s.failLive accepts e).1.roster = s.roster.clear := rfl
  rw [published_failLive]
  refine ⟨⟨?_, ?_, ?_⟩, ?_, fun _ _ _ => hroster⟩
  · split <;> simp [errorEvent, event]
  · split <;> simpa [errorEvent, event, Event.Credible] using hle
  · rw [hroster]
    split <;> simp [errorEvent, event, Event.recount]
  · split <;> simp [errorEvent, event]

theorem shows_tearDown (s : State γ κ) :
    Shows s s.tearDown.1 (published (s.tearDown.2 ++ [.startTeardown s.teardowns.length])) := by
  rw [published_append, published_tearDown]
  exact shows_nil rfl

theorem Outcome.shows {i : Nat} {failure : Option ProducerError}
    (outcome : Outcome accepts s i failure t effects) : Shows s t (published effects) := by
  cases outcome with
  | failed e => exact shows_failLive s e
  | deserted => exact shows_tearDown s
  | active => refine ⟨⟨?_, ?_, ?_⟩, ?_, ?_⟩ <;>
      simp [published_cons, Effect.event?, event, Event.Credible, Event.recount]
  | late failure =>
      cases failure with
      | none => exact shows_nil rfl
      | some e => exact shows_error rfl e

theorem Move.shows {input : Input γ κ} (move : Move accepts s input t effects)
    (numbered : s.roster.Numbered) : Shows s t (published effects) := by
  cases move with
  | refuse => exact shows_nil rfl
  | begin c => refine ⟨⟨?_, ?_, ?_⟩, ?_, ?_⟩ <;>
      simp [published_cons, Effect.event?, event, Event.Credible, Event.recount, beginSession]
  | join c => refine ⟨⟨?_, ?_, ?_⟩, ?_, ?_⟩ <;>
      simp [published_cons, Effect.event?, event, Event.Credible, Event.recount]
  | rejoin c => refine ⟨⟨?_, ?_, ?_⟩, ?_, ?_⟩ <;>
      simp [published_cons, Effect.event?, event, Event.Credible, Event.recount]
  | part id c attached =>
      have hcount := numbered.count_erase attached
      refine ⟨⟨?_, ?_, ?_⟩, ?_, ?_⟩ <;>
        simp [published_cons, Effect.event?, event, Event.Credible, Event.recount, hcount]
  | drain id c grace attached =>
      have hcount := numbered.count_erase attached
      refine ⟨⟨?_, ?_, ?_⟩, ?_, ?_⟩ <;>
        simp [published_cons, Effect.event?, event, Event.withDelay, Event.Credible, Event.recount,
          hcount]
  | partLast id c attached =>
      have hcount := numbered.count_erase attached
      refine ⟨⟨?_, ?_, ?_⟩, ?_, ?_⟩ <;>
        simp [published_cons, Effect.event?, event, Event.Credible, Event.recount, hcount]
  | elapse => exact shows_tearDown s
  | update => exact shows_nil rfl
  | complete => refine ⟨⟨?_, ?_, ?_⟩, ?_, ?_⟩ <;>
      simp [published_cons, Effect.event?, event, Event.Credible, Event.recount, Roster.count_eq]
  | fail i e => exact shows_failLive s e
  | failLate i e => exact shows_error rfl e
  | call => exact shows_nil rfl
  | skip i due cancelled outcome => exact outcome.shows.staged
  | activated i result runs outcome => exact outcome.shows.staged
  | deactivate => exact shows_nil rfl
  | deactivated j panic =>
      cases panic <;> refine ⟨⟨?_, ?_, ?_⟩, ?_, ?_⟩ <;>
        simp [published_cons, Effect.event?, event, errorEvent, Event.Credible, Event.recount,
          setTeardown]
  | drop =>
      rw [published_drop]
      exact shows_nil rfl

theorem Outcome.spent {i : Nat} {failure : Option ProducerError} {id : ConsumerId}
    (outcome : Outcome accepts s i failure t effects) (h : s.roster.Spent id) :
    t.roster.Spent id := by
  cases outcome with
  | failed => exact .clear h.given
  | deserted | active | late => exact h

theorem Move.spent {input : Input γ κ} {id : ConsumerId} (move : Move accepts s input t effects)
    (h : s.roster.Spent id) : t.roster.Spent id := by
  cases move with
  | begin c | join c | rejoin c => exact h.insert c
  | part other | drain other | partLast other => exact h.erase other
  | complete | fail => exact .clear h.given
  | skip i due cancelled outcome => exact outcome.spent h
  | activated i result runs outcome => exact outcome.spent h
  | _ => exact h

/-! ## Runs -/

theorem spent_run {id : ConsumerId} (h : s.roster.Spent id) (occasions : List (Occasion γ κ)) :
    (s.run occasions).1.roster.Spent id := by
  induction occasions generalizing s with
  | nil => exact h
  | cons o rest ih => exact ih ((take_move s o).spent h)

theorem counts_run {occasions : List (Occasion γ κ)} (numbered : s.roster.Numbered) :
    (s.run occasions).1.roster.Numbered ∧
      Counts s (s.run occasions).1 (published (s.run occasions).2) := by
  induction occasions generalizing s with
  | nil => exact ⟨numbered, (shows_nil rfl).toCounts⟩
  | cons o rest ih =>
      have hmove := take_move s o
      obtain ⟨hnumbered, hlater⟩ := ih (hmove.numbered numbered)
      rw [run_cons, published_append]
      exact ⟨hnumbered, (hmove.shows numbered).toCounts.trans hlater hmove.name_eq⟩

theorem counts_fresh (name : String) (grace : Option Span) (occasions : List (Occasion γ κ)) :
    ((fresh name grace : State γ κ).run occasions).1.roster.Numbered ∧
      Counts (fresh name grace) ((fresh name grace).run occasions).1
        (published ((fresh name grace : State γ κ).run occasions).2) :=
  counts_run Roster.numbered_empty

/-- A run from `start`, and the count that its events show.  Whatever else is published in the
meantime, who picks out the events of the gate can follow its count; and who was let go with a
session has nothing left to give up. -/
structure Reckoned (start : State γ κ) (occasions : List (Occasion γ κ)) : Prop where
  own : ∀ e ∈ published (start.run occasions).2, e.source = some start.name
  counted : ∀ (bus : Bus) (all : List Event),
    (all.filter fun e => e.source == some start.name) = published (start.run occasions).2 →
      let heard := heardFrom start.name bus all
      heard.Pairwise (fun e later => e.seq < later.seq) ∧
        recounted 0 heard = (start.run occasions).1.roster.count ∧
        ∀ before e after, heard = before ++ e :: after → e.Credible (recounted 0 before)
  active : ∀ o : Occasion γ κ, ∀ e ∈ published ((start.run occasions).1.take o).2,
    e.kind = .producerActive → e.consumers = some ((start.run occasions).1.take o).1.roster.count
  late : ∀ earlier o later, occasions = earlier ++ o :: later →
    (∃ e ∈ published ((start.run earlier).1.take o).2,
      e.kind = .producerCompleted ∨ e.kind = .producerFailed) →
    ∀ id < (start.run earlier).1.roster.nextId, ∀ accepts,
      (start.run occasions).1.step accepts (.release id) = ((start.run occasions).1, [])

theorem events_replay_to_the_count (name : String) (grace : Option Span)
    (occasions : List (Occasion γ κ)) : Reckoned (fresh name grace : State γ κ) occasions := by
  obtain ⟨hnumbered, hcounts⟩ := counts_fresh name grace occasions
  constructor
  · exact hcounts.own
  · intro bus all hall
    have hheard := heardFrom_unnumbered (fresh name grace : State γ κ).name bus all
    rw [hall] at hheard
    refine ⟨heardFrom_ordered name bus all, ?_, fun before e after hsplit => ?_⟩
    · rw [← recounted_unnumbered, hheard, recounted_unnumbered]
      exact hcounts.total
    · have htallies := tallies_unnumbered.mpr hcounts.tallies
      rw [← hheard, tallies_unnumbered] at htallies
      exact (hsplit ▸ htallies : Tallies 0 (before ++ e :: after)).credible
  · exact fun o => ((take_move _ o).shows hnumbered).active
  · rintro earlier o later rfl ⟨e, he, hends⟩ id given accepts
    have hfirst := (counts_fresh name grace earlier).1
    have hcleared := ((take_move _ o).shows hfirst).ended e he hends
    have hspent := spent_run (hcleared ▸ Roster.Spent.clear given :
      (((fresh name grace : State γ κ).run earlier).1.take o).1.roster.Spent id) later
    rw [run_append, run_cons]
    simp only [step, release, hspent.absent]

/-- Consumers come and go, one of two refuses the failure of the session, and both give up their
leases after it; a third comes back within the grace period. -/
def changingAudience : List (Occasion Nat Unit) :=
  [.attach 1, .attach 2, .activate 0, .activated 0 .returned, .attach 3, .release 3,
    .fail 0 (.failed "lost"), .release 1, .release 2, .attach 4, .deactivate 0,
    .deactivated 0 none, .activate 1, .activated 1 .returned, .release 4, .attach 5,
    .complete 1, .release 5].map fun input => { input, accepts := fun c => c == 1 }

theorem counts_of_changing_audience :
    (published ((fresh "gate" (some (Span.ofMs 5)) : State Nat Unit).run changingAudience).2).map
        (fun e => (e.kind, e.consumers)) =
      [(.consumerAttached, some 1), (.producerActivating, none), (.consumerAttached, some 2),
        (.producerActive, some 2), (.consumerAttached, some 3), (.consumerDetached, some 2),
        (.producerFailed, some 1), (.consumerAttached, some 1), (.producerActivating, none),
        (.producerInactive, none), (.producerActive, some 1), (.producerDraining, none),
        (.consumerDetached, some 0), (.producerActive, some 1), (.consumerAttached, some 1),
        (.producerCompleted, some 1)] ∧
      Reckoned (fresh "gate" (some (Span.ofMs 5)) : State Nat Unit) changingAudience :=
  ⟨by decide +kernel, events_replay_to_the_count "gate" _ changingAudience⟩

end State

end Gate

end Lifecycle
