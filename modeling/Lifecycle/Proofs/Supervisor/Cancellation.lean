import Lifecycle.Proofs.Supervisor.Stages

/-!
# Why tasks are cancelled

A task is asked to give up when another one is launched for its key, when a user asks the owner of
the key to, and when the context of all tasks ends; nothing else does.  Requests reach the owner of
a key only.  The earlier tasks of the key that have not ended were asked to give up before, when
they were replaced.
-/

namespace Lifecycle.Supervisor

namespace State

variable {s : State} {given : Input} {key : Value} {i j : Nat}

theorem run_append (s : State) (inputs more : List Input) :
    s.run (inputs ++ more) =
      (((s.run inputs).1.run more).1, (s.run inputs).2 ++ ((s.run inputs).1.run more).2) := by
  induction inputs generalizing s with
  | nil => rfl
  | cons input rest ih => rw [List.cons_append, run_cons, ih, run_cons, List.append_assoc]

theorem run_concat (s : State) (inputs : List Input) (given : Input) :
    s.run (inputs ++ [given]) =
      (((s.run inputs).1.step given).1, (s.run inputs).2 ++ ((s.run inputs).1.step given).2) := by
  rw [run_append]
  simp [run]

/-! ## What a step does to tokens -/

theorem tasks_length_eq (s : State) : s.tasks.length = s.taskKeys.length :=
  (List.length_map _).symm

@[simp] theorem tasks_length_cancelTask (s : State) (i : Nat) :
    (s.cancelTask i).1.tasks.length = s.tasks.length := by
  rw [tasks_length_eq, taskKeys_cancelTask, ← tasks_length_eq]

theorem isCancelled_modifyTask (s : State) (i j : Nat) {f : Task → Task}
    (same : ∀ t, (f t).cancelled = t.cancelled) :
    (s.modifyTask i f).isCancelled j = s.isCancelled j := by
  simp only [isCancelled, modifyTask, List.getElem?_modify]
  cases s.tasks[j]? with
  | none => rfl
  | some t => by_cases h : i = j <;> simp [h, same]

@[simp] theorem isCancelled_setStage (s : State) (i j : Nat) (stage : Stage) :
    (s.setStage i stage).isCancelled j = s.isCancelled j :=
  isCancelled_modifyTask s i j fun _ => rfl

@[simp] theorem isCancelled_endTask (s : State) (i j : Nat) :
    (s.endTask i).1.isCancelled j = s.isCancelled j :=
  isCancelled_setStage s i j .ended

theorem isCancelled_step_own (own : given.task? = some j) (i : Nat) :
    (s.step given).1.isCancelled i = s.isCancelled i := by
  rcases step_own (s := s) own with heq | ⟨_, heq⟩ | heq | heq <;> simp [heq]

theorem isCancelled_cancelTask (known : j < s.tasks.length) (i : Nat) :
    (s.cancelTask i).1.isCancelled j = true ↔ s.isCancelled j = true ∨ i = j := by
  unfold cancelTask
  split
  · rename_i hold
    exact ⟨.inl, fun h => h.elim id fun hij => hij ▸ hold⟩
  · by_cases hij : i = j <;> simp [isCancelled, modifyTask, known, hij]

theorem isCancelled_ask (known : j < s.tasks.length) (who : Option Nat) :
    (who.elim s fun i => (s.cancelTask i).1).isCancelled j = true ↔
      s.isCancelled j = true ∨ who = some j := by
  cases who with
  | none => simp
  | some i => rw [Option.elim_some, isCancelled_cancelTask known, Option.some.injEq]

theorem isCancelled_extend (s : State) (key : Value) (i : Nat) :
    (s.extend key).isCancelled i = if i = s.tasks.length then s.closed else s.isCancelled i := by
  simp only [isCancelled, tasks_extend]
  by_cases hi : i = s.tasks.length <;> simp [hi]

theorem tasks_length_extend (s : State) (key : Value) :
    (s.extend key).tasks.length = s.tasks.length + 1 := by
  simp [extend, setOwner]

theorem launch_state (s : State) (key : Value) :
    (s.launch key).1 =
      (s.owner? key).elim (s.extend key) fun p => ((s.extend key).cancelTask p).1 := by
  unfold launch extend
  cases s.owner? key <;> rfl

theorem cancel_state (s : State) (key : Value) :
    (s.cancel key).1 = (s.owner? key).elim s fun p => (s.cancelTask p).1 := by
  unfold cancel
  cases s.owner? key <;> rfl

theorem isCancelled_cancelTasks (tasks : List Nat) (r : State × List Effect)
    (known : j < r.1.tasks.length) :
    (tasks.foldl
      (fun (s, effects) i =>
        let (s, more) := s.cancelTask i
        (s, effects ++ more)) r).1.isCancelled j = true ↔
      r.1.isCancelled j = true ∨ j ∈ tasks := by
  induction tasks generalizing r with
  | nil => simp
  | cons i rest ih =>
      rw [List.foldl_cons, ih _ (by simpa using known), isCancelled_cancelTask known, List.mem_cons,
        or_assoc, eq_comm (a := i)]

def Hits (s : State) (i : Nat) : Input → Prop
  | .launch key | .cancel key => s.owner? key = some i
  | .close => True
  | .begin _ | .finish _ _ | .abort _ | .panic _ _ | .release _ => False

theorem isCancelled_step (known : i < s.tasks.length) (given : Input) :
    (s.step given).1.isCancelled i = true ↔ s.isCancelled i = true ∨ s.Hits i given := by
  cases given with
  | launch key =>
      have hknown : i < (s.extend key).tasks.length := by
        rw [tasks_length_extend]
        omega
      rw [step, launch_state, isCancelled_ask hknown, isCancelled_extend,
        if_neg (Nat.ne_of_lt known)]
      rfl
  | cancel key =>
      rw [step, cancel_state]
      exact isCancelled_ask known _
  | close =>
      rw [step, close, isCancelled_cancelTasks _ _ known]
      simp [Hits, known]
  | begin | finish | abort | panic | release =>
      rw [isCancelled_step_own rfl]
      simp [Hits]

theorem Chained.isCancelled_launch (h : Chained s) (key : Value) :
    (s.step (.launch key)).1.isCancelled s.tasks.length = s.closed := by
  have hknown : s.tasks.length < (s.extend key).tasks.length := by
    rw [tasks_length_extend]
    omega
  have fresh : s.owner? key ≠ some s.tasks.length := fun howner =>
    Nat.lt_irrefl _ (lt_of_keyOf (h.owner key _ howner).1)
  rw [Bool.eq_iff_iff, State.step, launch_state, isCancelled_ask hknown, isCancelled_extend,
    if_pos rfl]
  exact or_iff_left fresh

/-! ## What lasts -/

theorem tasks_length_step (s : State) (given : Input) :
    (s.step given).1.tasks.length = s.tasks.length + given.launched?.toList.length := by
  rw [tasks_length_eq, taskKeys_step, List.length_append, ← tasks_length_eq]

theorem launched_of_step (new : ¬i < s.tasks.length) (present : i < (s.step given).1.tasks.length) :
    i = s.tasks.length ∧ ∃ key, given = .launch key := by
  rw [tasks_length_step] at present
  cases given with
  | launch key =>
      rw [Input.launched?, Option.toList_some, List.length_singleton] at present
      exact ⟨by omega, key, rfl⟩
  | _ => exact absurd present (by simpa [Input.launched?] using new)

theorem keyOf_step_of_known (known : i < s.tasks.length) (given : Input) :
    (s.step given).1.keyOf i = s.keyOf i := by
  rw [keyOf_eq, keyOf_eq, taskKeys_step, List.getElem?_append_left]
  rwa [← tasks_length_eq]

theorem closed_cancelTask (s : State) (i : Nat) : (s.cancelTask i).1.closed = s.closed := by
  unfold cancelTask
  split <;> rfl

theorem closed_step_own (own : given.task? = some j) : (s.step given).1.closed = s.closed := by
  rcases step_own (s := s) own with heq | ⟨_, heq⟩ | heq | heq <;> rw [heq] <;> rfl

theorem closed_step (s : State) (given : Input) :
    (s.step given).1.closed = true ↔ s.closed = true ∨ given = .close := by
  cases given with
  | launch key =>
      rw [step, launch_state]
      cases s.owner? key <;> simp [closed_cancelTask, extend, setOwner]
  | cancel key =>
      rw [step, cancel_state]
      cases s.owner? key <;> simp [closed_cancelTask]
  | close =>
      refine iff_of_true ?_ (.inr rfl)
      exact close_induct (P := fun t _ => t.closed = true) rfl
        fun t _ i h => (closed_cancelTask t i).trans h
  | begin | finish | abort | panic | release =>
      rw [closed_step_own rfl]
      simp

theorem closed_run (s : State) (inputs : List Input) :
    (s.run inputs).1.closed = true ↔ s.closed = true ∨ .close ∈ inputs := by
  induction inputs generalizing s with
  | nil => simp [run]
  | cons given rest ih =>
      rw [run_cons, ih, closed_step, List.mem_cons, or_assoc, eq_comm (a := given)]

theorem keyOf_run (launched : s.keyOf i = some key) (inputs : List Input) :
    (s.run inputs).1.keyOf i = some key := by
  induction inputs generalizing s with
  | nil => exact launched
  | cons given rest ih =>
      rw [run_cons]
      exact ih ((keyOf_step_of_known (lt_of_keyOf launched) given).trans launched)

theorem lt_of_isCancelled (cancelled : s.isCancelled i = true) : i < s.tasks.length := by
  by_contra hlong
  rw [isCancelled, List.getElem?_eq_none (Nat.le_of_not_lt hlong)] at cancelled
  cases cancelled

theorem isCancelled_run (cancelled : s.isCancelled i = true) (inputs : List Input) :
    (s.run inputs).1.isCancelled i = true := by
  induction inputs generalizing s with
  | nil => exact cancelled
  | cons given rest ih =>
      rw [run_cons]
      exact ih ((isCancelled_step (lt_of_isCancelled cancelled) given).mpr (.inl cancelled))

/-! ## Who has been asked -/

structure Asked (s : State) : Prop where
  replaced : ∀ key i j, s.keyOf i = some key → s.keyOf j = some key → i < j →
    s.stageOf i = some .ended ∨ s.isCancelled i = true
  closed : s.closed = true → ∀ i < s.tasks.length, s.isCancelled i = true

theorem asked_fresh (name : String) : Asked { name } where
  replaced := by simp [keyOf]
  closed := nofun

theorem Asked.step (h : Asked s) (chained : Chained s) (given : Input) :
    Asked (s.step given).1 := by
  have hstays {i : Nat} (cancelled : s.isCancelled i = true) :
      (s.step given).1.isCancelled i = true :=
    (isCancelled_step (lt_of_isCancelled cancelled) given).mpr (.inl cancelled)
  constructor
  · intro key i j hi hj hlt
    have hlong := lt_of_keyOf hj
    rw [tasks_length_step] at hlong
    have hone : given.launched?.toList.length ≤ 1 := by cases given.launched? <;> simp
    have hknown : i < s.tasks.length := by omega
    rw [keyOf_step_of_known hknown] at hi
    have hlasts : s.stageOf i = some .ended ∨ s.isCancelled i = true →
        (s.step given).1.stageOf i = some .ended ∨ (s.step given).1.isCancelled i = true :=
      Or.imp (stageOf_step_ended · given) hstays
    by_cases hold : s.keyOf j = some key
    · exact hlasts (h.replaced key i j hi hold hlt)
    · -- The later task is launched now: the earlier one is the owner, was replaced, or has ended.
      obtain rfl : given = .launch key := by
        by_contra hother
        exact hold ((keyOf_step_of_ne hother j).mp hj)
      cases howner : s.owner? key with
      | none => exact hlasts (.inl (chained.unowned key i howner hi))
      | some p =>
          obtain ⟨hp, _, hlatest⟩ := chained.owner key p howner
          rcases Nat.eq_or_lt_of_le (hlatest i hi) with rfl | hip
          · exact .inr ((isCancelled_step hknown _).mpr (.inr howner))
          · exact hlasts (h.replaced key i p hi hp hip)
  · intro hclosed i hlt
    by_cases hknown : i < s.tasks.length
    · rcases (closed_step s given).mp hclosed with hclosed | rfl
      · exact hstays (h.closed hclosed i hknown)
      · exact (isCancelled_step hknown _).mpr (.inr trivial)
    · obtain ⟨rfl, key, rfl⟩ := launched_of_step hknown hlt
      rw [chained.isCancelled_launch]
      exact ((closed_step s _).mp hclosed).resolve_right nofun

theorem Asked.run (h : Asked s) (chained : Chained s) (inputs : List Input) :
    Asked (s.run inputs).1 := by
  induction inputs generalizing s with
  | nil => exact h
  | cons given rest ih => exact ih (h.step chained given) (chained.step given)

/-! ## Causes -/

/-- The input is a reason for the task to give up, also if the task is launched later. -/
inductive Reason (s : State) (i : Nat) : Input → Prop
  | replaced (key : Value) (launched : s.keyOf i = some key) : Reason s i (.launch key)
  | requested (key : Value) (owner : s.owner? key = some i) : Reason s i (.cancel key)
  | ended : Reason s i .close

/-- Some input was a reason when it was given. -/
def Cause (name : String) (inputs : List Input) (i : Nat) : Prop :=
  ∃ before given after, inputs = before ++ given :: after ∧
    Reason (State.run { name } before).1 i given

variable {name : String} {inputs : List Input}

theorem Cause.of_close (closed : .close ∈ inputs) (i : Nat) : Cause name inputs i := by
  obtain ⟨before, after, rfl⟩ := List.append_of_mem closed
  exact ⟨before, .close, after, rfl, .ended⟩

theorem Cause.earlier (cause : Cause name inputs i) (given : Input) :
    Cause name (inputs ++ [given]) i := by
  obtain ⟨before, reason, after, rfl, hreason⟩ := cause
  exact ⟨before, reason, after ++ [given], by simp, hreason⟩

theorem Cause.latest (reason : Reason (State.run { name } inputs).1 i given) :
    Cause name (inputs ++ [given]) i :=
  ⟨inputs, given, [], rfl, reason⟩

theorem Chained.reason_of_hits (h : Chained s) (hits : s.Hits i given) : Reason s i given := by
  cases given with
  | launch key => exact .replaced key (h.owner key i hits).1
  | cancel key => exact .requested key hits
  | close => exact .ended
  | begin | finish | abort | panic | release => cases hits

theorem cause_of_isCancelled (cancelled : (State.run { name } inputs).1.isCancelled i = true) :
    Cause name inputs i := by
  induction inputs using List.reverseRecOn with
  | nil => simp [run, isCancelled] at cancelled
  | append_singleton inputs given ih =>
      have chained := (chained_fresh name).run inputs
      have hlt := lt_of_isCancelled cancelled
      rw [run_concat] at cancelled hlt
      by_cases hknown : i < (State.run { name } inputs).1.tasks.length
      · rcases (isCancelled_step hknown given).mp cancelled with hold | hits
        · exact (ih hold).earlier given
        · exact .latest (chained.reason_of_hits hits)
      · obtain ⟨rfl, key, rfl⟩ := launched_of_step hknown hlt
        rw [chained.isCancelled_launch, closed_run] at cancelled
        exact (Cause.of_close (cancelled.resolve_left (by simp)) _).earlier _

theorem isCancelled_of_cause (cause : Cause name inputs i)
    (known : i < (State.run { name } inputs).1.tasks.length)
    (live : (State.run { name } inputs).1.stageOf i ≠ some .ended) :
    (State.run { name } inputs).1.isCancelled i = true := by
  have chained := (chained_fresh name).run inputs
  have asked := (asked_fresh name).run (chained_fresh name) inputs
  obtain ⟨before, given, after, rfl, reason⟩ := cause
  cases reason with
  | replaced key launched =>
      have hlatest : ((State.run { name } before).1.step (.launch key)).1.keyOf
          (State.run { name } before).1.tasks.length = some key := by
        rw [keyOf_eq, taskKeys_step, tasks_length_eq]
        simp [Input.launched?]
      have hearlier := (keyOf_step_of_known (lt_of_keyOf launched) (.launch key)).trans launched
      rw [run_append] at asked live ⊢
      exact (asked.replaced key i _ (keyOf_run hearlier after) (keyOf_run hlatest after)
        (lt_of_keyOf launched)).resolve_left live
  | requested key owner =>
      have hknown := lt_of_keyOf (((chained_fresh name).run before).owner key i owner).1
      have hnow := (isCancelled_step hknown (.cancel key)).mpr (.inr owner)
      rw [run_append]
      exact isCancelled_run hnow after
  | ended => exact asked.closed ((closed_run _ _).mpr (.inr (by simp))) i known

/-! ## Requests -/

def requests (s : State) : List Input := s.keys.map .cancel

theorem cancel_alike (s : State) (key : Value) : Alike s (s.step (.cancel key)).1 := by
  rw [step, cancel_state]
  cases s.owner? key with
  | none => exact .refl s
  | some i => exact cancelTask_alike s i

theorem Alike.owner? {t : State} (h : Alike s t) (key : Value) : t.owner? key = s.owner? key := by
  rw [State.owner?, h.owners, State.owner?]

theorem Alike.isEnded {t : State} (h : Alike s t) (i : Nat) : t.isEnded i = s.isEnded i := by
  rw [Bool.eq_iff_iff, isEnded_iff, isEnded_iff, h.stageOf]

theorem run_cancels (keys : List Value) (s : State) :
    Alike s (s.run (keys.map .cancel)).1 ∧
      ∀ i < s.tasks.length, ((s.run (keys.map .cancel)).1.isCancelled i = true ↔
        s.isCancelled i = true ∨ ∃ key ∈ keys, s.owner? key = some i) := by
  induction keys generalizing s with
  | nil => exact ⟨.refl s, by simp [run]⟩
  | cons key rest ih =>
      obtain ⟨halike, hcancelled⟩ := ih (s.step (.cancel key)).1
      rw [List.map_cons, run_cons]
      refine ⟨(cancel_alike s key).trans halike, fun i known => ?_⟩
      rw [hcancelled i (by rw [tasks_length_step]; omega), isCancelled_step known, or_assoc]
      simp [Hits, (cancel_alike s key).owner?]

theorem Asked.owner (h : Asked s) (chained : Chained s) (launched : s.keyOf i = some key)
    (live : s.isEnded i = false) (spared : s.isCancelled i = false) : s.owner? key = some i := by
  rw [isEnded_eq_false_iff] at live
  refine (chained.owner?_eq_some_iff key i).mpr ⟨launched, fun j hj => ?_, live⟩
  by_contra hlater
  rcases h.replaced key i j launched hj (Nat.lt_of_not_le hlater) with hended | hcancelled
  · exact live hended
  · rw [spared] at hcancelled
    cases hcancelled

/-- What explains which tokens have fired.  Of the unfinished tasks of a key only its owner may go
on, and what is done for one key leaves the tasks of other keys alone. -/
structure Explained (name : String) (inputs : List Input) (s : State) : Prop where
  tasks : s.taskKeys = inputs.filterMap Input.launched?
  cause : ∀ i < s.tasks.length, s.isEnded i = false →
    (s.isCancelled i = true ↔ Cause name inputs i)
  owner : ∀ key i, s.keyOf i = some key → s.isEnded i = false → s.isCancelled i = false →
    s.owner? key = some i
  asked : ∀ key i, s.keyOf i = some key → (s.step (.cancel key)).1.isEnded i = false →
    (s.step (.cancel key)).1.isCancelled i = true
  allAsked : ∀ i < s.tasks.length, (s.run s.requests).1.isEnded i = false →
    (s.run s.requests).1.isCancelled i = true
  others : ∀ given key other i, given = .launch key ∨ given = .cancel key →
    s.keyOf i = some other → other ≠ key → (s.step given).1.isCancelled i = s.isCancelled i

theorem cancellation_has_cause (name : String) (inputs : List Input) :
    Explained name inputs (State.run { name } inputs).1 := by
  have chained := (chained_fresh name).run inputs
  have asked := (asked_fresh name).run (chained_fresh name) inputs
  have htasks : (State.run { name } inputs).1.taskKeys = inputs.filterMap Input.launched? :=
    taskKeys_run { name } inputs
  have hcause (i : Nat) (cancelled : (State.run { name } inputs).1.isCancelled i = true) :=
    cause_of_isCancelled cancelled
  have hcancelled (i : Nat) (cause : Cause name inputs i) := isCancelled_of_cause cause
  generalize (State.run { name } inputs).1 = s at *
  refine ⟨htasks, ?_, ?_, ?_, ?_, ?_⟩
  · intro i known live
    exact ⟨hcause i, fun cause => hcancelled i cause known ((isEnded_eq_false_iff s i).mp live)⟩
  · exact fun key i launched live spared => asked.owner chained launched live spared
  · intro key i launched live
    rw [(cancel_alike s key).isEnded] at live
    rw [isCancelled_step (lt_of_keyOf launched)]
    cases hspared : s.isCancelled i with
    | true => exact .inl rfl
    | false => exact .inr (asked.owner chained launched live hspared)
  · intro i known live
    obtain ⟨halike, hrun⟩ := run_cancels s.keys s
    rw [requests, halike.isEnded] at live
    rw [requests, hrun i known]
    cases hspared : s.isCancelled i with
    | true => exact .inl rfl
    | false =>
        have launched : s.keyOf i = some s.tasks[i].key := by
          rw [keyOf, List.getElem?_eq_getElem known, Option.map_some]
        have howner := asked.owner chained launched live hspared
        refine .inr ⟨_, (mem_keys_iff s _).mpr ?_, howner⟩
        rw [isOwned, howner]
        rfl
  · intro given key other i request launched differs
    have hmiss : ¬s.Hits i given := by
      intro hits
      have howner : s.owner? key = some i := by rcases request with rfl | rfl <;> exact hits
      exact differs (Option.some.inj (launched.symm.trans (chained.owner key i howner).1))
    rw [Bool.eq_iff_iff, isCancelled_step (lt_of_keyOf launched)]
    exact or_iff_left hmiss

end State

end Lifecycle.Supervisor
