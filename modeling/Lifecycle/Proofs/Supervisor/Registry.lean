import Mathlib.Data.Finset.Card
import Lifecycle.Proofs.Supervisor.Exclusion

/-!
# The registry of owners is exact

The tasks are those that were launched, in that order.  A key is owned exactly while the task that
was launched last for it has not ended, and that task is its owner.  So the registry lists the keys
with unfinished tasks, each once.  A task that ends late takes only its own entry away.
-/

namespace Lifecycle.Supervisor

def Input.launched? : Input → Option Value
  | .launch key => some key
  | _ => none

namespace State

def taskKeys (s : State) : List Value := s.tasks.map Task.key

def launched (s : State) (key : Value) : List Nat :=
  (List.range s.tasks.length).filter fun i => s.keyOf i = some key

def busyKeys (s : State) : Finset Value :=
  ((s.tasks.filter fun t => t.stage ≠ .ended).map Task.key).toFinset

theorem keyOf_eq (s : State) (i : Nat) : s.keyOf i = s.taskKeys[i]? :=
  List.getElem?_map.symm

theorem mem_launched_iff {s : State} {key : Value} {i : Nat} :
    i ∈ s.launched key ↔ s.keyOf i = some key := by
  simp only [launched, List.mem_filter, List.mem_range, decide_eq_true_eq, and_iff_right_iff_imp]
  exact lt_of_keyOf

theorem isEnded_eq_false_iff (s : State) (i : Nat) :
    s.isEnded i = false ↔ s.stageOf i ≠ some .ended := by
  rw [ne_eq, ← isEnded_iff, Bool.not_eq_true]

/-! ## What a step does to the keys of the tasks -/

theorem taskKeys_modifyTask (s : State) (i : Nat) {f : Task → Task} (hf : ∀ t, (f t).key = t.key) :
    (s.modifyTask i f).taskKeys = s.taskKeys := by
  apply List.ext_getElem?
  intro j
  simp only [taskKeys, modifyTask, List.getElem?_map, List.getElem?_modify]
  cases s.tasks[j]? with
  | none => rfl
  | some t => by_cases h : i = j <;> simp [h, hf]

theorem taskKeys_cancelTask (s : State) (i : Nat) : (s.cancelTask i).1.taskKeys = s.taskKeys := by
  unfold cancelTask
  split
  · rfl
  · exact taskKeys_modifyTask s i fun _ => rfl

theorem taskKeys_endTask (s : State) (i : Nat) : (s.endTask i).1.taskKeys = s.taskKeys :=
  taskKeys_modifyTask s i fun _ => rfl

theorem taskKeys_launch (s : State) (key : Value) :
    (s.launch key).1.taskKeys = s.taskKeys ++ [key] := by
  have hextend : (s.extend key).taskKeys = s.taskKeys ++ [key] := List.map_append
  unfold launch
  simp only
  split
  · exact hextend
  · exact (taskKeys_cancelTask _ _).trans hextend

theorem taskKeys_close (s : State) : s.close.1.taskKeys = s.taskKeys := by
  unfold close
  refine List.foldlRecOn (motive := fun r : State × List Effect => r.1.taskKeys = s.taskKeys)
    _ _ rfl fun r h i _ => ?_
  exact (taskKeys_cancelTask r.1 i).trans h

theorem taskKeys_step (s : State) (input : Input) :
    (s.step input).1.taskKeys = s.taskKeys ++ input.launched?.toList := by
  cases input with
  | launch key => exact taskKeys_launch s key
  | close => exact (taskKeys_close s).trans (List.append_nil _).symm
  | cancel key =>
      simp only [step, cancel]
      cases s.owner? key with
      | none => exact (List.append_nil _).symm
      | some i => exact (taskKeys_cancelTask s i).trans (List.append_nil _).symm
  | begin i =>
      simp only [step, begin]
      repeat' split
      all_goals simp [Input.launched?, taskKeys_endTask, taskKeys_modifyTask]
  | finish i r =>
      simp only [step, finish]
      repeat' split
      all_goals simp [Input.launched?, taskKeys_endTask]
  | panic i info =>
      simp only [step, panic]
      repeat' split
      all_goals simp [Input.launched?, taskKeys_endTask]
  | abort i =>
      simp only [step, abort]
      repeat' split
      all_goals simp [Input.launched?, taskKeys_endTask, taskKeys_modifyTask]
  | release i =>
      simp only [step, release]
      repeat' split
      all_goals simp [Input.launched?, taskKeys_endTask]

theorem taskKeys_run (s : State) (inputs : List Input) :
    (s.run inputs).1.taskKeys = s.taskKeys ++ inputs.filterMap Input.launched? := by
  induction inputs generalizing s with
  | nil => exact (List.append_nil _).symm
  | cons input rest ih =>
      have hcons : (input :: rest).filterMap Input.launched? =
          input.launched?.toList ++ rest.filterMap Input.launched? := by
        cases hlaunched : input.launched? with
        | none => rw [List.filterMap_cons_none hlaunched]; rfl
        | some key => rw [List.filterMap_cons_some hlaunched]; rfl
      rw [run_cons, ih, taskKeys_step, List.append_assoc, hcons]

theorem keyOf_step_of_ne {s : State} {input : Input} {key : Value} (other : input ≠ .launch key)
    (i : Nat) : (s.step input).1.keyOf i = some key ↔ s.keyOf i = some key := by
  rw [keyOf_eq, keyOf_eq, taskKeys_step, List.getElem?_append]
  split
  · rfl
  · rename_i hlong
    rw [List.getElem?_eq_none (Nat.le_of_not_lt hlong)]
    cases input with
    | launch k =>
        have hk : k ≠ key := fun h => other (congrArg _ h)
        cases i - s.taskKeys.length <;> simp [Input.launched?, hk]
    | _ => simp [Input.launched?]

/-! ## Exactness -/

theorem Chained.owner?_eq_some_iff {s : State} (h : Chained s) (key : Value) (i : Nat) :
    s.owner? key = some i ↔
      s.keyOf i = some key ∧ (∀ j, s.keyOf j = some key → j ≤ i) ∧ s.stageOf i ≠ some .ended := by
  constructor
  · intro howner
    obtain ⟨hkey, hstage, hlatest⟩ := h.owner key i howner
    exact ⟨hkey, hlatest, hstage⟩
  · rintro ⟨hkey, hlatest, hstage⟩
    cases howner : s.owner? key with
    | none => exact absurd (h.unowned key i howner hkey) hstage
    | some j =>
        obtain ⟨hj, _, hlast⟩ := h.owner key j howner
        rw [Nat.le_antisymm (hlatest j hj) (hlast i hkey)]

theorem Chained.isOwned_iff {s : State} (h : Chained s) (key : Value) :
    s.isOwned key = true ↔ ∃ i ∈ s.launched key, s.isEnded i = false := by
  simp only [isOwned, mem_launched_iff]
  constructor
  · intro howned
    obtain ⟨i, howner⟩ := Option.isSome_iff_exists.mp howned
    obtain ⟨hkey, hstage, _⟩ := h.owner key i howner
    exact ⟨i, hkey, (isEnded_eq_false_iff _ _).mpr hstage⟩
  · rintro ⟨i, hkey, hlive⟩
    -- The task need not be the owner itself: another one may have been launched since.
    cases howner : s.owner? key with
    | none => exact absurd (h.unowned key i howner hkey) ((isEnded_eq_false_iff _ _).mp hlive)
    | some j => rfl

theorem mem_keys_iff (s : State) (key : Value) : key ∈ s.keys ↔ s.isOwned key = true := by
  rw [isOwned, owner?, keys, Option.isSome_iff_ne_none, ne_eq, List.lookup_eq_none_iff,
    List.mem_map]
  simp only [bne_iff_ne, not_forall, not_not, exists_prop, eq_comm (a := key)]

theorem mem_busyKeys_iff (s : State) (key : Value) :
    key ∈ s.busyKeys ↔ ∃ i ∈ s.launched key, s.isEnded i = false := by
  simp only [busyKeys, List.mem_toFinset, List.mem_map, List.mem_filter, mem_launched_iff, keyOf,
    Option.map_eq_some_iff, isEnded]
  constructor
  · rintro ⟨t, ⟨hmem, hstage⟩, hkey⟩
    obtain ⟨i, hget⟩ := List.mem_iff_getElem?.mp hmem
    exact ⟨i, ⟨t, hget, hkey⟩, by simpa [hget] using hstage⟩
  · rintro ⟨i, ⟨t, hget, hkey⟩, hstage⟩
    exact ⟨t, ⟨List.mem_iff_getElem?.mpr ⟨i, hget⟩, by simpa [hget] using hstage⟩, hkey⟩

theorem launched_getLast?_iff (s : State) (key : Value) (i : Nat) :
    (s.launched key).getLast? = some i ↔
      s.keyOf i = some key ∧ ∀ j, s.keyOf j = some key → j ≤ i := by
  have hsorted : (s.launched key).Pairwise (· < ·) := List.pairwise_lt_range.filter _
  constructor
  · intro hlast
    obtain ⟨before, hsplit⟩ := List.getLast?_eq_some_iff.mp hlast
    refine ⟨mem_launched_iff.mp (by rw [hsplit]; simp), fun j hj => ?_⟩
    have hmem := mem_launched_iff.mpr hj
    rw [hsplit] at hmem hsorted
    rcases List.mem_append.mp hmem with hbefore | hself
    · exact Nat.le_of_lt ((List.pairwise_append.mp hsorted).2.2 j hbefore i (by simp))
    · exact Nat.le_of_eq (List.mem_singleton.mp hself)
  · rintro ⟨hkey, hlatest⟩
    have hmem := mem_launched_iff.mpr hkey
    cases hlast : (s.launched key).getLast? with
    | none =>
        rw [List.getLast?_eq_none_iff.mp hlast] at hmem
        cases hmem
    | some k =>
        obtain ⟨before, hsplit⟩ := List.getLast?_eq_some_iff.mp hlast
        have hk := hlatest k (mem_launched_iff.mp (by rw [hsplit]; simp))
        rw [hsplit] at hmem hsorted
        rcases List.mem_append.mp hmem with hbefore | hself
        · have := (List.pairwise_append.mp hsorted).2.2 i hbefore k (by simp)
          omega
        · rw [List.mem_singleton.mp hself]

/-- What the registry says of every key when the inputs have been given.  The owner is the latest
task of the key, as long as that has not ended, and an entry goes only when its own task ends or
another launch takes the key over. -/
structure Exact (inputs : List Input) (s : State) : Prop where
  tasks : s.taskKeys = inputs.filterMap Input.launched?
  owner : ∀ key, s.owner? key = (s.launched key).getLast?.filter fun i => !s.isEnded i
  owned : ∀ key, s.isOwned key = true ↔ ∃ i ∈ s.launched key, s.isEnded i = false
  unowned : ∀ key, s.owner? key = none ↔ ∀ i ∈ s.launched key, s.isEnded i = true
  distinct : s.keys.Nodup
  keys : ∀ key, key ∈ s.keys ↔ ∃ i ∈ s.launched key, s.isEnded i = false
  count : s.count = s.busyKeys.card
  kept : ∀ input key i, s.owner? key = some i → input ≠ .launch key →
    (s.step input).1.isEnded i = false → (s.step input).1.owner? key = some i

theorem Chained.kept {s : State} (h : Chained s) {input : Input} {key : Value} {i : Nat}
    (owner : s.owner? key = some i) (other : input ≠ .launch key)
    (live : (s.step input).1.isEnded i = false) : (s.step input).1.owner? key = some i := by
  obtain ⟨hkey, hlatest, _⟩ := (h.owner?_eq_some_iff key i).mp owner
  have hkey' := (keyOf_step_of_ne (s := s) other i).mpr hkey
  refine ((h.step input).owner?_eq_some_iff key i).mpr ⟨hkey', fun j hj => ?_, ?_⟩
  · exact hlatest j ((keyOf_step_of_ne other j).mp hj)
  · exact (isEnded_eq_false_iff _ _).mp live

theorem registry_is_exact (name : String) (inputs : List Input) :
    Exact inputs (State.run { name } inputs).1 := by
  have htasks : (State.run { name } inputs).1.taskKeys = inputs.filterMap Input.launched? :=
    taskKeys_run { name } inputs
  have h : Chained (State.run { name } inputs).1 := (chained_fresh name).run inputs
  generalize (State.run { name } inputs).1 = s at h htasks ⊢
  have hbusy (key : Value) : key ∈ s.keys ↔ key ∈ s.busyKeys := by
    rw [mem_keys_iff, h.isOwned_iff, mem_busyKeys_iff]
  refine ⟨htasks, fun key => ?_, h.isOwned_iff, fun key => ?_, h.distinct, fun key => ?_, ?_,
    fun input key i owner other live => h.kept owner other live⟩
  · apply Option.ext
    intro i
    rw [h.owner?_eq_some_iff, Option.filter_eq_some_iff, launched_getLast?_iff, and_assoc]
    refine and_congr_right fun hkey => and_congr_right fun _ => ?_
    rw [Bool.not_eq_true', isEnded_eq_false_iff]
  · rw [← Option.not_isSome_iff_eq_none, ← isOwned, h.isOwned_iff]
    simp
  · rw [mem_keys_iff, h.isOwned_iff]
  · have hkeys : s.keys.toFinset = s.busyKeys := by
      ext key
      rw [List.mem_toFinset, hbusy]
    rw [← hkeys, List.toFinset_card_of_nodup h.distinct, keys, List.length_map, count]

/-- The second task is dropped while it waits, the third one owns the key, and the first one ends
late: the entry of the third stays. -/
example :
    let key := Value.number 0
    let inputs : List Input :=
      [.launch key, .begin 0, .launch key, .abort 1, .launch key, .finish 0 (.ok ()), .release 1]
    (State.run { name := "s" } inputs).1.owner? key = some 2 := by decide

end State

end Lifecycle.Supervisor
