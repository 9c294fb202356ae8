import Lifecycle.Proofs.Gate.Counting
import Lifecycle.Proofs.Gate.Errands

/-!
# Leases

Each consumer that comes gets a lease with a number of its own, which is not given again, whatever
becomes of the sessions in the meantime.  So whoever gives up a lease takes away the consumer that
it was given for, and nothing happens if that consumer is gone.  A consumer that is attached holds a
lease, so there is none left when all leases have been given up.
-/

namespace Lifecycle.Gate

namespace Roster

variable {γ : Type} {r : Roster γ} {id : ConsumerId} {c : γ} {before after : List (ConsumerId × γ)}

theorem find?_eq_none_iff : r.find? id = none ↔ id ∉ r.entries.map Prod.fst := by
  simp only [find?, List.lookup_eq_none_iff, bne_iff_ne, List.mem_map, not_exists, not_and]
  exact forall₂_congr fun _ _ => ne_comm

theorem Numbered.ne_of_split (h : Numbered r) (split : r.entries = before ++ (id, c) :: after) :
    ∀ e ∈ before ++ after, e.1 ≠ id := by
  have hincreasing := h.increasing
  rw [split, List.map_append, List.map_cons, List.pairwise_append,
    List.pairwise_cons] at hincreasing
  obtain ⟨_, ⟨hafter, _⟩, hbefore⟩ := hincreasing
  intro e he
  rcases List.mem_append.mp he with he | he
  · exact Nat.ne_of_lt (hbefore e.1 (List.mem_map_of_mem he) id List.mem_cons_self)
  · exact Nat.ne_of_gt (hafter e.1 (List.mem_map_of_mem he))

theorem Numbered.find?_of_split (h : Numbered r)
    (split : r.entries = before ++ (id, c) :: after) : r.find? id = some c :=
  List.lookup_eq_some_iff.mpr ⟨before, after, split, fun e he =>
    bne_iff_ne.mpr (h.ne_of_split split e (List.mem_append_left _ he)).symm⟩

theorem Numbered.erase_of_split (h : Numbered r)
    (split : r.entries = before ++ (id, c) :: after) : (r.erase id).entries = before ++ after := by
  have hothers := h.ne_of_split split
  have hkept (part : List (ConsumerId × γ)) (sub : ∀ e ∈ part, e ∈ before ++ after) :
      part.filter (fun e => e.1 != id) = part :=
    List.filter_eq_self.mpr fun e he => bne_iff_ne.mpr (hothers e (sub e he))
  rw [Roster.erase, split, List.filter_append, List.filter_cons_of_neg (by simp),
    hkept before fun _ => List.mem_append_left _, hkept after fun _ => List.mem_append_right _]

/-- Who is attached was so before or has come since, with the numbers that were next. -/
structure Follows (r t : Roster γ) (coming : List (ConsumerId × γ)) : Prop where
  numbers : coming.map Prod.fst = List.range' r.nextId coming.length
  nextId : t.nextId = r.nextId + coming.length
  entries : t.entries.Sublist (r.entries ++ coming)

namespace Follows

variable {t u : Roster γ} {coming still : List (ConsumerId × γ)}

theorem less (nextId : t.nextId = r.nextId) (entries : t.entries.Sublist r.entries) :
    Follows r t [] :=
  ⟨rfl, nextId, by rwa [List.append_nil]⟩

theorem refl (r : Roster γ) : Follows r r [] := .less rfl (List.Sublist.refl _)

theorem insert (r : Roster γ) (c : γ) : Follows r (r.insert c) [(r.nextId, c)] :=
  ⟨rfl, rfl, List.Sublist.refl _⟩

theorem erase (r : Roster γ) (id : ConsumerId) : Follows r (r.erase id) [] :=
  .less rfl List.filter_sublist

theorem clear (r : Roster γ) : Follows r r.clear [] := .less rfl (List.nil_sublist _)

theorem trans (h₁ : Follows r t coming) (h₂ : Follows t u still) :
    Follows r u (coming ++ still) where
  numbers := by
    rw [List.map_append, h₁.numbers, h₂.numbers, h₁.nextId, List.length_append,
      List.range'_append_1]
  nextId := by rw [h₂.nextId, h₁.nextId, List.length_append, Nat.add_assoc]
  entries := by
    rw [← List.append_assoc]
    exact h₂.entries.trans (h₁.entries.append_right _)

end Follows

end Roster

namespace State

variable {γ κ : Type}

def lease? (s : State γ κ) (input : Input γ κ) : Option (ConsumerId × γ) :=
  input.attached?.map fun c => (s.roster.nextId, c)

/-- The leases that are left of `held` and of those given out since, the first of them with the
number `next`, when users have asked for these things. -/
def heldLeases (next : ConsumerId) (held : List ConsumerId) : List (Input γ κ) → List ConsumerId
  | [] => held
  | .attach _ :: rest => heldLeases (next + 1) (held ++ [next]) rest
  | .release id :: rest => heldLeases next (held.filter (· != id)) rest
  | _ :: rest => heldLeases next held rest

theorem heldLeases_requests (next : ConsumerId) (held : List ConsumerId)
    (occasions : List (Occasion γ κ)) :
    heldLeases next held (requests occasions) =
      heldLeases next held (occasions.map Occasion.input) := by
  induction occasions generalizing next held with
  | nil => rfl
  | cons o rest ih =>
      obtain ⟨input, accepts⟩ := o
      cases input <;> exact ih _ _

variable [Inhabited κ]

def leases (s : State γ κ) : List (Occasion γ κ) → List (ConsumerId × γ)
  | [] => []
  | o :: rest => (s.lease? o.input).toList ++ (s.take o).1.leases rest

variable {accepts : γ → Bool} {s t : State γ κ} {effects : List (Effect γ κ)} {id : ConsumerId}

theorem Outcome.follows {i : Nat} {failure : Option ProducerError}
    (outcome : Outcome accepts s i failure t effects) : s.roster.Follows t.roster [] := by
  cases outcome with
  | failed => exact .clear _
  | deserted | active | late => exact .refl _

theorem Move.follows {input : Input γ κ} (move : Move accepts s input t effects) :
    s.roster.Follows t.roster (s.lease? input).toList := by
  cases move with
  | refuse _ ignored =>
      cases input with
      | attach => exact absurd ignored id
      | _ => exact .refl _
  | begin c | join c | rejoin c => exact .insert _ c
  | part id | drain id | partLast id => exact .erase _ id
  | complete | fail => exact .clear _
  | skip i due cancelled outcome => exact outcome.follows
  | activated i result runs outcome => exact outcome.follows
  | elapse | update | failLate | call | deactivate | deactivated | drop => exact .refl _

theorem follows_run (s : State γ κ) (occasions : List (Occasion γ κ)) :
    s.roster.Follows (s.run occasions).1.roster (s.leases occasions) := by
  induction occasions generalizing s with
  | nil => exact .refl _
  | cons o rest ih => exact (take_move s o).follows.trans (ih _)

theorem consumers_leases (s : State γ κ) (occasions : List (Occasion γ κ)) :
    (s.leases occasions).map Prod.snd = attached occasions := by
  induction occasions generalizing s with
  | nil => rfl
  | cons o rest ih =>
      rw [leases, List.map_append, ih, attached_cons, lease?]
      cases o.input.attached? <;> rfl

/-! ## Giving up a lease -/

/-- The consumer leaves, the others stay as they are, and the session goes on as long as there are
others. -/
structure Removed (s : State γ κ) (id : ConsumerId) (c : γ) (r : State γ κ × List (Effect γ κ)) :
    Prop where
  others : ∃ before after, s.roster.entries = before ++ (id, c) :: after ∧
    r.1.roster.entries = before ++ after
  nextId : r.1.roster.nextId = s.roster.nextId
  dismissed : dismissed r.2 = [c]
  offered : offered r.2 = []
  rest : r.1.roster.isEmpty = false → r.1 = { s with roster := s.roster.erase id }

theorem release_of_absent (absent : s.roster.find? id = none) (accepts : γ → Bool) :
    s.step accepts (.release id) = (s, []) := by
  simp only [step, release, absent]

theorem Move.removed {c : γ} (move : Move accepts s (.release id) t effects)
    (numbered : s.roster.Numbered) (attached : s.roster.find? id = some c) :
    Removed s id c (t, effects) := by
  obtain ⟨before, after, hsplit, _⟩ := List.lookup_eq_some_iff.mp attached
  have herased := numbered.erase_of_split hsplit
  have hothers {t : State γ κ} (erased : t.roster = s.roster.erase id) :
      ∃ before after, s.roster.entries = before ++ (id, c) :: after ∧
        t.roster.entries = before ++ after :=
    ⟨before, after, hsplit, by rw [erased, herased]⟩
  cases move with
  | refuse _ ignored => cases attached.symm.trans ignored
  | part _ d attached' =>
      obtain rfl := Option.some.inj (attached.symm.trans attached')
      exact ⟨hothers rfl, rfl, rfl, rfl, fun _ => rfl⟩
  | drain _ d grace attached' last =>
      obtain rfl := Option.some.inj (attached.symm.trans attached')
      refine ⟨hothers rfl, rfl, rfl, rfl, fun occupied => ?_⟩
      cases occupied.symm.trans last
  | partLast _ d attached' last =>
      obtain rfl := Option.some.inj (attached.symm.trans attached')
      refine ⟨hothers rfl, rfl, ?_, ?_, fun occupied => ?_⟩
      · rw [dismissed_append, dismissed_append, dismissed_tearDown]
        rfl
      · rw [offered_append, offered_append, offered_tearDown]
        rfl
      · cases occupied.symm.trans last

theorem removed_of_attached {c : γ} (numbered : s.roster.Numbered)
    (attached : (id, c) ∈ s.roster.entries) (accepts : γ → Bool) :
    Removed s id c (s.step accepts (.release id)) := by
  obtain ⟨before, after, hsplit⟩ := List.append_of_mem attached
  have hmove : Move accepts s (.release id) _ _ := step_move s (.release id)
  exact hmove.removed numbered (numbered.find?_of_split hsplit)

/-! ## Leases that are held -/

theorem Move.entries_release (move : Move accepts s (.release id) t effects) :
    t.roster.entries = s.roster.entries.filter (·.1 != id) := by
  cases move with
  | refuse _ ignored =>
      have habsent := Roster.find?_eq_none_iff.mp ignored
      exact (List.filter_eq_self.mpr fun e he => bne_iff_ne.mpr fun same =>
        habsent (List.mem_map.mpr ⟨e, he, same⟩)).symm
  | part | drain | partLast => rfl

/-- If every consumer holds a lease before a step, it does so after the step, and what is asked for
in the step accounts for the difference. -/
theorem Move.held {held : List ConsumerId} {input : Input γ κ}
    (move : Move accepts s input t effects) (h : ∀ e ∈ s.roster.entries, e.1 ∈ held) :
    ∃ now, (∀ e ∈ t.roster.entries, e.1 ∈ now) ∧ ∀ rest,
      heldLeases s.roster.nextId held (input :: rest) = heldLeases t.roster.nextId now rest := by
  obtain ⟨_, hnext, hentries⟩ := move.follows
  have hquiet (none : input.attached? = none) : t.roster.nextId = s.roster.nextId ∧
      t.roster.entries.Sublist s.roster.entries := by
    rw [lease?, none] at hnext hentries
    exact ⟨hnext, by simpa using hentries⟩
  cases input with
  | attach c =>
      refine ⟨held ++ [s.roster.nextId], fun e he => ?_, fun rest => by rw [hnext]; rfl⟩
      rcases List.mem_append.mp (hentries.subset he) with hold | hnew
      · exact List.mem_append_left _ (h e hold)
      · cases List.mem_singleton.mp hnew
        exact List.mem_append_right _ (List.mem_singleton_self _)
  | release k =>
      refine ⟨held.filter (· != k), fun e he => ?_, fun rest => by rw [(hquiet rfl).1]; rfl⟩
      rw [move.entries_release] at he
      obtain ⟨hmem, hother⟩ := List.mem_filter.mp he
      exact List.mem_filter.mpr ⟨h e hmem, hother⟩
  | _ =>
      exact ⟨held, fun e he => h e ((hquiet rfl).2.subset he), fun rest => by
        rw [(hquiet rfl).1]; rfl⟩

theorem held_run {held : List ConsumerId} (h : ∀ e ∈ s.roster.entries, e.1 ∈ held)
    (occasions : List (Occasion γ κ)) : ∀ e ∈ (s.run occasions).1.roster.entries,
      e.1 ∈ heldLeases s.roster.nextId held (requests occasions) := by
  rw [heldLeases_requests]
  induction occasions generalizing s held with
  | nil => exact h
  | cons o rest ih =>
      obtain ⟨now, hnow, hasks⟩ := (take_move s o).held h
      rw [List.map_cons, hasks]
      exact ih hnow

/-- What can be said of the leases of a run from `start`.  They are numbered in turn and none is
given again, and who is attached holds one; who has gone does not come back, so that the lease is of
no use ever after. -/
structure Identified (start : State γ κ) (occasions : List (Occasion γ κ)) : Prop where
  consumers : (start.leases occasions).map Prod.snd = attached occasions
  distinct : ((start.leases occasions).map Prod.fst).Pairwise (· < ·)
  numbered : (start.run occasions).1.roster.Numbered
  attached : (start.run occasions).1.roster.entries.Sublist (start.leases occasions)
  released : ∀ id c, (id, c) ∈ start.leases occasions → ∀ accepts,
    let r := (start.run occasions).1.step accepts (.release id)
    (id, c) ∈ (start.run occasions).1.roster.entries ∧ Removed (start.run occasions).1 id c r ∨
      (id, c) ∉ (start.run occasions).1.roster.entries ∧ r = ((start.run occasions).1, [])
  stale : ∀ earlier later, occasions = earlier ++ later → ∀ id c, (id, c) ∈ start.leases earlier →
    (id, c) ∉ (start.run earlier).1.roster.entries → ∀ accepts,
      (start.run occasions).1.step accepts (.release id) = ((start.run occasions).1, [])

theorem spent_of_lease {occasions : List (Occasion γ κ)} {c : γ}
    (leased : (id, c) ∈ s.leases occasions) (fresh : s.roster.entries = [])
    (gone : (id, c) ∉ (s.run occasions).1.roster.entries) :
    (s.run occasions).1.roster.Spent id := by
  have hfollows := follows_run s occasions
  have hdistinct : ((s.leases occasions).map Prod.fst).Nodup := by
    rw [hfollows.numbers]
    exact List.nodup_range'
  have hid : id ∈ List.range' s.roster.nextId (s.leases occasions).length := by
    rw [← hfollows.numbers]
    exact List.mem_map_of_mem leased
  have hentries := hfollows.entries
  rw [fresh, List.nil_append] at hentries
  constructor
  · rw [hfollows.nextId]
    exact (List.mem_range'_1.mp hid).2
  · refine Roster.find?_eq_none_iff.mpr fun taken => ?_
    obtain ⟨e, he, rfl⟩ := List.mem_map.mp taken
    have hsame : e = (e.1, c) := List.inj_on_of_nodup_map hdistinct (hentries.subset he) leased rfl
    rw [← hsame] at gone
    exact gone he

theorem leases_name_their_consumers (name : String) (grace : Option Span)
    (occasions : List (Occasion γ κ)) : Identified (fresh name grace : State γ κ) occasions := by
  have hfollows := follows_run (fresh name grace : State γ κ) occasions
  obtain ⟨hnumbered, _⟩ := counts_fresh (γ := γ) (κ := κ) name grace occasions
  constructor
  · exact consumers_leases _ occasions
  · rw [hfollows.numbers]
    exact List.pairwise_lt_range'
  · exact hnumbered
  · exact hfollows.entries
  · intro id c leased accepts
    by_cases hattached : (id, c) ∈ ((fresh name grace : State γ κ).run occasions).1.roster.entries
    · exact .inl ⟨hattached, removed_of_attached hnumbered hattached accepts⟩
    · exact .inr ⟨hattached, release_of_absent (spent_of_lease leased rfl hattached).absent accepts⟩
  · rintro earlier later rfl id c leased gone accepts
    rw [run_append]
    exact release_of_absent (spent_run (spent_of_lease leased rfl gone) later).absent accepts

/-- The session of two consumers completes, and one of them gives up its lease only when the session
after it is under way with another consumer. -/
def belatedRelease : List (Occasion Nat Unit) :=
  [.attach 7, .attach 8, .activate 0, .activated 0 .returned, .release 2, .complete 0, .attach 7,
    .deactivate 0, .deactivated 0 none, .activate 1, .activated 1 .returned, .release 1].map
      fun input => { input, accepts := fun _ => true }

theorem leases_of_belated_release :
    (fresh "gate" none : State Nat Unit).leases belatedRelease = [(1, 7), (2, 8), (3, 7)] ∧
      ((fresh "gate" none : State Nat Unit).run belatedRelease).1.roster.entries = [(3, 7)] ∧
      ((fresh "gate" none : State Nat Unit).run belatedRelease).1.phase = .active ∧
      Identified (fresh "gate" none : State Nat Unit) belatedRelease :=
  ⟨by decide +kernel, by decide +kernel, by decide +kernel,
    leases_name_their_consumers "gate" none belatedRelease⟩

end State

end Lifecycle.Gate
