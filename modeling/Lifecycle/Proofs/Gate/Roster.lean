import Lifecycle.Proofs.Gate.Run

/-!
# The consumers of a gate

Consumers are numbered in the order in which they come, and no number is given twice.  So a lease
that is given up takes its own consumer out of the roster and no other.
-/

namespace Lifecycle.Gate

namespace Roster

variable {γ : Type} {r : Roster γ} {c : γ} {id : ConsumerId}

theorem isEmpty_iff : r.isEmpty = true ↔ r.members = [] := by
  simp [isEmpty, members]

@[simp] theorem isEmpty_insert (r : Roster γ) (c : γ) : (r.insert c).isEmpty = false := by
  simp [isEmpty, insert]

@[simp] theorem isEmpty_clear (r : Roster γ) : r.clear.isEmpty = true := rfl

@[simp] theorem members_insert (r : Roster γ) (c : γ) :
    (r.insert c).members = r.members ++ [c] := by
  simp [members, insert]

@[simp] theorem members_clear (r : Roster γ) : r.clear.members = [] := rfl

theorem members_erase_sublist (r : Roster γ) (id : ConsumerId) :
    (r.erase id).members.Sublist r.members :=
  List.filter_sublist.map Prod.snd

theorem find?_eq_none_of_isEmpty (h : r.isEmpty = true) (id : ConsumerId) :
    r.find? id = none := by
  have hentries : r.entries = [] := by simpa [isEmpty] using h
  simp [find?, hentries]

theorem occupied_of_find? (h : r.find? id = some c) : r.isEmpty = false := by
  cases hempty : r.isEmpty with
  | false => rfl
  | true =>
      rw [find?_eq_none_of_isEmpty hempty] at h
      cases h

/-- The numbers grow from one consumer to the next, up to the number that is given next. -/
structure Numbered (r : Roster γ) : Prop where
  increasing : (r.entries.map Prod.fst).Pairwise (· < ·)
  below : ∀ e ∈ r.entries, e.1 < r.nextId

theorem numbered_empty : Numbered ({} : Roster γ) where
  increasing := List.Pairwise.nil
  below _ h := absurd h List.not_mem_nil

theorem Numbered.insert (h : Numbered r) (c : γ) : Numbered (r.insert c) where
  increasing := by
    simp only [Roster.insert, List.map_append, List.map_cons, List.map_nil,
      List.pairwise_append, List.pairwise_singleton, List.mem_map, List.mem_singleton]
    refine ⟨h.increasing, trivial, ?_⟩
    rintro _ ⟨e, he, rfl⟩ _ rfl
    exact h.below e he
  below e he := by
    simp only [Roster.insert, List.mem_append, List.mem_singleton] at he ⊢
    rcases he with he | rfl
    · exact Nat.lt_succ_of_lt (h.below e he)
    · exact Nat.lt_succ_self _

theorem Numbered.erase (h : Numbered r) (id : ConsumerId) : Numbered (r.erase id) where
  increasing := h.increasing.sublist (List.filter_sublist.map Prod.fst)
  below e he := h.below e (List.mem_filter.mp he).1

theorem Numbered.clear (r : Roster γ) : Numbered r.clear where
  increasing := List.Pairwise.nil
  below _ h := absurd h List.not_mem_nil

theorem perm_of_lookup {entries : List (ConsumerId × γ)}
    (increasing : (entries.map Prod.fst).Pairwise (· < ·)) (found : entries.lookup id = some c) :
    (entries.map Prod.snd).Perm (c :: (entries.filter fun e => e.1 != id).map Prod.snd) := by
  induction entries with
  | nil => cases found
  | cons e rest ih =>
      obtain ⟨first, x⟩ := e
      rw [List.map_cons, List.pairwise_cons] at increasing
      rw [List.lookup_cons] at found
      by_cases heq : id = first
      · have hx : x = c := by simpa [heq] using found
        have hrest : rest.filter (fun e => e.1 != id) = rest := by
          rw [List.filter_eq_self]
          intro e he
          have hlt : first < e.1 := increasing.1 e.1 (List.mem_map_of_mem he)
          rw [heq, bne_iff_ne]
          exact Nat.ne_of_gt hlt
        rw [List.filter_cons_of_neg (by simp [heq]), hrest, hx]
        exact List.Perm.refl _
      · have hfound : rest.lookup id = some c := by
          rw [beq_eq_false_iff_ne.mpr heq] at found
          exact found
        rw [List.filter_cons_of_pos (by simpa using Ne.symm heq)]
        exact ((ih increasing.2 hfound).cons x).trans (List.Perm.swap _ _ _)

theorem Numbered.members_perm (h : Numbered r) (attached : r.find? id = some c) :
    r.members.Perm (c :: (r.erase id).members) :=
  perm_of_lookup h.increasing attached

end Roster

namespace State

variable {γ κ : Type} [Inhabited κ] {accepts : γ → Bool} {s t : State γ κ}
  {effects : List (Effect γ κ)}

theorem Outcome.numbered {i : Nat} {failure : Option ProducerError}
    (outcome : Outcome accepts s i failure t effects) (h : s.roster.Numbered) :
    t.roster.Numbered := by
  cases outcome with
  | failed => exact .clear _
  | deserted => exact h
  | active => exact h
  | late => exact h

theorem Move.numbered {input : Input γ κ} (move : Move accepts s input t effects)
    (h : s.roster.Numbered) : t.roster.Numbered := by
  cases move with
  | refuse => exact h
  | begin c => exact h.insert c
  | join c => exact h.insert c
  | rejoin c => exact h.insert c
  | part id => exact h.erase id
  | drain id => exact h.erase id
  | partLast id => exact h.erase id
  | elapse => exact h
  | update => exact h
  | complete => exact .clear _
  | fail => exact .clear _
  | failLate => exact h
  | call => exact h
  | skip i due cancelled outcome => exact outcome.numbered h
  | activated i result runs outcome => exact outcome.numbered h
  | deactivate => exact h
  | deactivated => exact h
  | drop => exact h

end State

end Lifecycle.Gate
