import Lifecycle.Proofs.Supervisor.Run

/-!
# One body at a time for each key

The tasks of a key form a chain in the order of their launches: each one knows the task that owned
the key before it, and the latest one owns the key until it has ended.  `Chained` says how owners,
predecessors and stages hang together; every move keeps it.  So a body is called only when all
tasks before it have ended, wherever in their lives those tasks were dropped.
-/

namespace Lifecycle.Supervisor

namespace State

/-! ## Owners after each kind of move -/

private theorem lookup_cons_eq (owners : List (Value × Nat)) (key k : Value) (i : Nat) :
    ((key, i) :: owners).lookup k = if k = key then some i else owners.lookup k := by
  rw [List.lookup_cons]
  by_cases hk : k = key
  · simp [hk]
  · have hbeq : (k == key) = false := by simpa using hk
    simp [hk, hbeq]

private theorem lookup_filter_key (owners : List (Value × Nat)) (key k : Value) :
    (owners.filter fun o => o.1 ≠ key).lookup k =
      if k = key then none else owners.lookup k := by
  induction owners with
  | nil => simp
  | cons o owners ih =>
      obtain ⟨k', i⟩ := o
      rw [lookup_cons_eq]
      by_cases hkey : k' = key
      · subst hkey
        rw [List.filter_cons_of_neg (by simp), ih]
        split <;> rfl
      · rw [List.filter_cons_of_pos (by simpa using hkey), lookup_cons_eq, ih]
        by_cases hk : k = k'
        · subst hk
          simp [hkey]
        · simp [hk]

private theorem lookup_filter_task (owners : List (Value × Nat)) (i : Nat) (k : Value)
    (distinct : (owners.map Prod.fst).Nodup) :
    (owners.filter fun o => o.2 ≠ i).lookup k =
      if owners.lookup k = some i then none else owners.lookup k := by
  induction owners with
  | nil => simp
  | cons o owners ih =>
      obtain ⟨k', j⟩ := o
      simp only [List.map_cons, List.nodup_cons] at distinct
      have ih := ih distinct.2
      have habsent : owners.lookup k' = none := by
        rw [List.lookup_eq_none_iff]
        intro p hp
        have hne : k' ≠ p.1 := fun h => distinct.1 (h ▸ List.mem_map_of_mem hp)
        simpa using hne
      rw [lookup_cons_eq]
      by_cases hj : j = i
      · subst hj
        rw [List.filter_cons_of_neg (by simp), ih]
        by_cases hk : k = k'
        · subst hk
          simp [habsent]
        · simp [hk]
      · rw [List.filter_cons_of_pos (by simpa using hj), lookup_cons_eq, ih]
        by_cases hk : k = k'
        · subst hk
          simp [hj]
        · simp [hk]

theorem owner?_extend (s : State) (key k : Value) :
    (s.extend key).owner? k = if k = key then some s.tasks.length else s.owner? k := by
  unfold owner?
  rw [owners_extend, List.lookup_append, lookup_filter_key]
  by_cases hk : k = key <;> simp [hk, lookup_cons_eq]

theorem keys_extend_nodup (s : State) (key : Value) (distinct : s.keys.Nodup) :
    (s.extend key).keys.Nodup := by
  unfold keys at distinct ⊢
  rw [owners_extend, List.map_append, List.nodup_append]
  refine ⟨(List.filter_sublist.map _).nodup distinct, by simp, ?_⟩
  rintro k hk k' hk' rfl
  simp only [List.map_cons, List.map_nil, List.mem_singleton] at hk'
  obtain ⟨o, ho, rfl⟩ := List.mem_map.mp hk
  exact (by simpa using (List.mem_filter.mp ho).2 : o.1 ≠ key) hk'

theorem owner?_endTask (s : State) (i : Nat) (k : Value) (distinct : s.keys.Nodup) :
    (s.endTask i).1.owner? k = if s.owner? k = some i then none else s.owner? k :=
  lookup_filter_task s.owners i k distinct

theorem lt_of_keyOf {s : State} {i : Nat} {key : Value} (h : s.keyOf i = some key) :
    i < s.tasks.length := by
  obtain ⟨task, htask, -⟩ := Option.map_eq_some_iff.mp h
  exact (List.getElem?_eq_some_iff.mp htask).1

/-! ## The invariant of the chains -/

def Clear (s : State) (i : Nat) : Prop :=
  ∀ key j, s.keyOf i = some key → s.keyOf j = some key → j < i → s.stageOf j = some .ended

/-- An owner has not ended and is the latest task of its key; an earlier task has ended or is not
behind the predecessor. -/
structure Chained (s : State) : Prop where
  distinct : s.keys.Nodup
  owner : ∀ key i, s.owner? key = some i →
    s.keyOf i = some key ∧ s.stageOf i ≠ some .ended ∧ ∀ j, s.keyOf j = some key → j ≤ i
  unowned : ∀ key i, s.owner? key = none → s.keyOf i = some key → s.stageOf i = some .ended
  linked : ∀ key i j, s.keyOf i = some key → s.keyOf j = some key → i < j →
    s.stageOf i = some .ended ∨
      ∃ p, s.previousOf j = some p ∧ i ≤ p ∧ s.keyOf p = some key
  cleared : ∀ i, s.stageOf i = some .running ∨ s.stageOf i = some .ended → s.Clear i

theorem chained_fresh (name : String) : Chained { name } where
  distinct := List.nodup_nil
  owner key i h := by simp [owner?] at h
  unowned key i _ h := by simp [keyOf] at h
  linked key i j h := by simp [keyOf] at h
  cleared i h := by simp [stageOf] at h

theorem Chained.alike {s t : State} (h : Chained s) (same : Alike s t) : Chained t := by
  have howner : t.owner? = s.owner? := funext fun key => by simp [owner?, same.owners]
  constructor
  · simpa [keys, same.owners] using h.distinct
  · simpa [howner, same.keyOf, same.stageOf] using h.owner
  · simpa [howner, same.keyOf, same.stageOf] using h.unowned
  · simpa [same.keyOf, same.stageOf, same.previousOf] using h.linked
  · simpa [Clear, same.keyOf, same.stageOf] using h.cleared

/-- A task that awaits nobody has only ended tasks before it: its predecessor ended when all tasks
before that one had. -/
theorem Chained.clear_of_awaits {s : State} (h : Chained s) {i : Nat} (free : s.awaits i = none) :
    s.Clear i := by
  rw [awaits_eq_none_iff] at free
  intro key j hi hj hlt
  rcases h.linked key j i hj hi hlt with hended | ⟨p, hprevious, hle, hp⟩
  · exact hended
  · have hpended := free p hprevious
    rcases Nat.eq_or_lt_of_le hle with rfl | hjp
    · exact hpended
    · exact h.cleared p (.inr hpended) key j hp hj hjp

theorem Chained.extend {s : State} (h : Chained s) (key : Value) : Chained (s.extend key) := by
  constructor
  · exact keys_extend_nodup s key h.distinct
  · intro k i hi
    rw [owner?_extend] at hi
    by_cases hk : k = key
    · subst hk
      obtain rfl : s.tasks.length = i := by simpa using hi
      refine ⟨by simp [keyOf_extend], by simp [stageOf_extend], fun j hj => ?_⟩
      rw [keyOf_extend] at hj
      split at hj
      · omega
      · exact Nat.le_of_lt (lt_of_keyOf hj)
    · rw [if_neg hk] at hi
      obtain ⟨hkey, hstage, hlatest⟩ := h.owner k i hi
      have hlt := lt_of_keyOf hkey
      refine ⟨by rwa [keyOf_extend, if_neg (by omega)],
        by rwa [stageOf_extend, if_neg (by omega)], fun j hj => ?_⟩
      rw [keyOf_extend] at hj
      split at hj
      · exact absurd (Option.some.inj hj).symm hk
      · exact hlatest j hj
  · intro k i hnone hi
    rw [owner?_extend] at hnone
    by_cases hk : k = key
    · simp [hk] at hnone
    · rw [if_neg hk] at hnone
      rw [keyOf_extend] at hi
      split at hi
      · exact absurd (Option.some.inj hi).symm hk
      · rename_i hne
        rw [stageOf_extend, if_neg hne]
        exact h.unowned k i hnone hi
  · intro k i j hi hj hlt
    have hi' : s.keyOf i = some k ∧ i < s.tasks.length := by
      rw [keyOf_extend] at hi hj
      split at hi
      · split at hj
        · omega
        · have := lt_of_keyOf hj
          omega
      · exact ⟨hi, lt_of_keyOf hi⟩
    rw [stageOf_extend, if_neg (by omega)]
    rw [keyOf_extend] at hj
    split at hj
    · rename_i hj'
      obtain rfl : key = k := Option.some.inj hj
      cases howner : s.owner? key with
      | none => exact .inl (h.unowned key i howner hi'.1)
      | some p =>
          obtain ⟨hp, -, hlatest⟩ := h.owner key p howner
          have := lt_of_keyOf hp
          refine .inr ⟨p, by rw [previousOf_extend, if_pos hj', howner], hlatest i hi'.1, ?_⟩
          rwa [keyOf_extend, if_neg (by omega)]
    · rename_i hj'
      rcases h.linked k i j hi'.1 hj hlt with hended | ⟨p, hprevious, hle, hp⟩
      · exact .inl hended
      · have := lt_of_keyOf hp
        refine .inr ⟨p, by rwa [previousOf_extend, if_neg hj'], hle, ?_⟩
        rwa [keyOf_extend, if_neg (by omega)]
  · intro i hstage k j hi hj hlt
    rw [stageOf_extend] at hstage
    split at hstage
    · simp at hstage
    · rename_i hi'
      rw [keyOf_extend, if_neg hi'] at hi
      have := lt_of_keyOf hi
      rw [keyOf_extend, if_neg (by omega)] at hj
      rw [stageOf_extend, if_neg (by omega)]
      exact h.cleared i hstage k j hi hj hlt

theorem stageOf_setStage_ended {s : State} {i j : Nat} {stage : Stage}
    (hi : s.stageOf i ≠ some .ended) (hj : s.stageOf j = some .ended) :
    (s.setStage i stage).stageOf j = some .ended := by
  rw [stageOf_setStage, if_neg]
  · exact hj
  · rintro rfl
    exact hi hj

theorem Chained.setStage {s : State} (h : Chained s) {i : Nat} {stage : Stage}
    (hi : s.stageOf i ≠ some .ended) (hstage : stage ≠ .ended)
    (hclear : stage = .running → s.Clear i) : Chained (s.setStage i stage) := by
  have hkeep {j : Nat} (hj : s.stageOf j = some .ended) :
      (s.setStage i stage).stageOf j = some .ended := stageOf_setStage_ended hi hj
  have hclearKeep {j : Nat} (hj : s.Clear j) : (s.setStage i stage).Clear j := by
    intro key k hkj hkk hlt
    rw [keyOf_setStage] at hkj hkk
    exact hkeep (hj key k hkj hkk hlt)
  constructor
  · exact h.distinct
  · intro key j hj
    obtain ⟨hkey, hne, hlatest⟩ := h.owner key j hj
    refine ⟨by simpa using hkey, ?_, by simpa using hlatest⟩
    rw [stageOf_setStage]
    split
    · cases s.stageOf j <;> simp [hstage]
    · exact hne
  · intro key j hnone hj
    rw [keyOf_setStage] at hj
    exact hkeep (h.unowned key j hnone hj)
  · intro key j k hj hk hlt
    simp only [keyOf_setStage, previousOf_setStage] at hj hk ⊢
    exact (h.linked key j k hj hk hlt).imp_left hkeep
  · intro j hj
    rw [stageOf_setStage] at hj
    split at hj
    · rename_i hij
      subst hij
      refine hclearKeep (hclear ?_)
      cases hs : s.stageOf i with
      | none => simp [hs] at hj
      | some _ => simpa [hs, hstage] using hj
    · exact hclearKeep (h.cleared j hj)

theorem Chained.endTask {s : State} (h : Chained s) {i : Nat} (hi : s.stageOf i ≠ some .ended)
    (hclear : s.Clear i) : Chained (s.endTask i).1 := by
  have hkeep {j : Nat} (hj : s.stageOf j = some .ended) :
      (s.endTask i).1.stageOf j = some .ended := stageOf_setStage_ended hi hj
  have hclearKeep {j : Nat} (hj : s.Clear j) : (s.endTask i).1.Clear j := by
    intro key k hkj hkk hlt
    rw [keyOf_endTask] at hkj hkk
    exact hkeep (hj key k hkj hkk hlt)
  constructor
  · exact (List.filter_sublist.map _).nodup h.distinct
  · intro key j hj
    rw [owner?_endTask s i key h.distinct] at hj
    split at hj
    · contradiction
    · rename_i hne
      obtain ⟨hkey, hstage, hlatest⟩ := h.owner key j hj
      refine ⟨by simpa using hkey, ?_, by simpa using hlatest⟩
      rw [stageOf_endTask, if_neg]
      · exact hstage
      · rintro rfl
        exact hne hj
  · intro key j hnone hj
    rw [owner?_endTask s i key h.distinct] at hnone
    rw [keyOf_endTask] at hj
    split at hnone
    · rename_i howner
      -- The key has lost its owner, the latest task; the tasks before it ended earlier.
      obtain ⟨hkey, -, hlatest⟩ := h.owner key i howner
      rcases Nat.eq_or_lt_of_le (hlatest j hj) with rfl | hlt
      · rw [stageOf_endTask, if_pos rfl]
        obtain ⟨task, htask, -⟩ := Option.map_eq_some_iff.mp hkey
        simp [stageOf, htask]
      · exact hkeep (hclear key j hkey hj hlt)
    · exact hkeep (h.unowned key j hnone hj)
  · intro key j k hj hk hlt
    simp only [keyOf_endTask, previousOf_endTask] at hj hk ⊢
    exact (h.linked key j k hj hk hlt).imp_left hkeep
  · intro j hj
    rw [stageOf_endTask] at hj
    split at hj
    · rename_i hij
      subst hij
      exact hclearKeep hclear
    · exact hclearKeep (h.cleared j hj)

theorem Chained.move {s t : State} {news : List Effect} (h : Chained s) (m : Move s t news) :
    Chained t := by
  cases m with
  | rest same => exact h.alike same
  | launch key same => exact (h.extend key).alike same
  | call i waiting free =>
      exact h.setStage (by simp [waiting]) (by simp) fun _ => h.clear_of_awaits free
  | orphan i waiting held => exact h.setStage (by simp [waiting]) (by simp) nofun
  | finish i r ready =>
      rcases ready with ⟨waiting, free⟩ | running
      · exact h.endTask (by simp [waiting]) (h.clear_of_awaits free)
      · exact h.endTask (by simp [running]) (h.cleared i (.inl running))
  | release i orphaned free => exact h.endTask (by simp [orphaned]) (h.clear_of_awaits free)

theorem Chained.step {s : State} (h : Chained s) (input : Input) : Chained (s.step input).1 :=
  h.move (step_move s input)

theorem Chained.run {s : State} (h : Chained s) (inputs : List Input) :
    Chained (s.run inputs).1 := by
  induction inputs generalizing s with
  | nil => exact h
  | cons input rest ih =>
      rw [run_cons]
      exact ih (h.step input)

/-! ## What has become known of the tasks -/

/-- The body was called, and its launcher has not learned of an end. -/
def InProgress (effects : List Effect) (i : Nat) : Prop :=
  .callBody i ∈ effects ∧ ∀ r, .resolve i r ∉ effects

structure Told (s : State) (effects : List Effect) : Prop where
  running : ∀ i, s.stageOf i = some .running ↔ InProgress effects i
  ended : ∀ i, s.stageOf i = some .ended ↔ .signal (.ended i) ∈ effects
  past : ∀ i, s.stageOf i = some .orphaned ∨ s.stageOf i = some .ended ↔
    ∃ r, .resolve i r ∈ effects

theorem told_fresh (name : String) : Told { name } [] := by
  constructor <;> simp [stageOf, InProgress]

theorem not_inProgress {effects : List Effect} {i : Nat} {r : Result}
    (resolved : .resolve i r ∈ effects) : ¬InProgress effects i := fun h => h.2 r resolved

theorem inProgress_news (effects : List Effect) (i : Nat) :
    InProgress (effects.filter Effect.isNews) i ↔ InProgress effects i := by
  simp [InProgress, List.mem_filter, Effect.isNews]

theorem told_news {s : State} {effects : List Effect} :
    Told s (effects.filter Effect.isNews) ↔ Told s effects := by
  constructor
  all_goals
    rintro ⟨running, ended, past⟩
    constructor <;> intro i
  · simpa [inProgress_news] using running i
  · simpa [Effect.isNews] using ended i
  · simpa [Effect.isNews] using past i
  · simpa [inProgress_news] using running i
  · simpa [Effect.isNews] using ended i
  · simpa [Effect.isNews] using past i

theorem Told.congr {s t : State} {effects : List Effect} (h : Told s effects)
    (same : ∀ i, t.stageOf i = s.stageOf i) : Told t effects := by
  constructor
  · simpa [same] using h.running
  · simpa [same] using h.ended
  · simpa [same] using h.past

theorem Told.extend {s : State} {effects : List Effect} (h : Told s effects) (key : Value) :
    Told (s.extend key) effects := by
  have hnew : s.stageOf s.tasks.length = none := by simp [stageOf]
  constructor <;> intro i <;> rw [stageOf_extend] <;> split
  · rename_i hi
    rw [← h.running, hi, hnew]
    simp
  · exact h.running i
  · rename_i hi
    rw [← h.ended, hi, hnew]
    simp
  · exact h.ended i
  · rename_i hi
    rw [← h.past, hi, hnew]
    simp
  · exact h.past i

theorem Told.change {s t : State} {effects news : List Effect} (h : Told s effects) (i : Nat)
    (others : ∀ j, j ≠ i → t.stageOf j = s.stageOf j)
    (foreign : ∀ j, j ≠ i →
      .callBody j ∉ news ∧ .signal (.ended j) ∉ news ∧ ∀ r, .resolve j r ∉ news)
    (running : t.stageOf i = some .running ↔ InProgress (effects ++ news) i)
    (ended : t.stageOf i = some .ended ↔ .signal (.ended i) ∈ effects ++ news)
    (past : t.stageOf i = some .orphaned ∨ t.stageOf i = some .ended ↔
      ∃ r, .resolve i r ∈ effects ++ news) : Told t (effects ++ news) := by
  constructor <;> intro j <;> by_cases hj : j = i
  · exact hj ▸ running
  · obtain ⟨hcall, -, hresolve⟩ := foreign j hj
    simp [others j hj, h.running, InProgress, hcall, hresolve]
  · exact hj ▸ ended
  · obtain ⟨-, hsignal, -⟩ := foreign j hj
    simp [others j hj, h.ended, hsignal]
  · exact hj ▸ past
  · obtain ⟨-, -, hresolve⟩ := foreign j hj
    simp [others j hj, h.past, hresolve]

theorem Told.unresolved {s : State} {effects : List Effect} (h : Told s effects) {i : Nat}
    (live : s.stageOf i = some .waiting ∨ s.stageOf i = some .running) (r : Result) :
    .resolve i r ∉ effects := by
  intro hr
  have hover := (h.past i).mpr ⟨r, hr⟩
  rcases live with live | live <;> simp [live] at hover

theorem Told.move {s t : State} {effects news : List Effect} (h : Told s effects)
    (m : Move s t news) : Told t (effects ++ news) := by
  have hothers (i : Nat) (stage : Stage) (j : Nat) (hj : j ≠ i) :
      (s.setStage i stage).stageOf j = s.stageOf j := by
    rw [stageOf_setStage, if_neg (Ne.symm hj)]
  have hself {i : Nat} {old : Stage} (hi : s.stageOf i = some old) (stage : Stage) :
      (s.setStage i stage).stageOf i = some stage := by
    rw [stageOf_setStage, if_pos rfl, hi]
    rfl
  cases m with
  | rest same => simpa using h.congr same.stageOf
  | launch key same => simpa using (h.extend key).congr same.stageOf
  | call i waiting free =>
      have hended : .signal (.ended i) ∉ effects := fun hi => by
        simpa [waiting] using (h.ended i).mpr hi
      refine h.change i (hothers i .running) (fun j hj => by simp [hj]) ?_ ?_ ?_
      · simp [hself waiting, InProgress, h.unresolved (.inl waiting)]
      · simp [hself waiting, hended]
      · simp [hself waiting, h.unresolved (.inl waiting)]
  | orphan i waiting held =>
      have hended : .signal (.ended i) ∉ effects := fun hi => by
        simpa [waiting] using (h.ended i).mpr hi
      refine h.change i (hothers i .orphaned) (fun j hj => by simp [hj]) ?_ ?_ ?_
      · exact iff_of_false (by simp [hself waiting]) (not_inProgress (r := .aborted) (by simp))
      · simp [hself waiting, hended]
      · simp [hself waiting]
  | finish i r ready =>
      have hlive : s.stageOf i = some .waiting ∨ s.stageOf i = some .running :=
        ready.imp_left And.left
      have hnow : (s.endTask i).1.stageOf i = some .ended := by
        rcases hlive with hlive | hlive <;> exact hself hlive .ended
      refine h.change i (hothers i .ended) (fun j hj => by simp [hj]) ?_ ?_ ?_
      · exact iff_of_false (by simp [hnow]) (not_inProgress (r := r) (by simp))
      · simp [hnow]
      · simp [hnow]
  | release i orphaned free =>
      have hnow : (s.endTask i).1.stageOf i = some .ended := hself orphaned .ended
      have hover : ∃ r, .resolve i r ∈ effects := (h.past i).mp (.inl orphaned)
      have hidle : ¬InProgress effects i := fun hi => by
        simpa [orphaned] using (h.running i).mpr hi
      refine h.change i (hothers i .ended) (fun j hj => by simp [hj]) ?_ ?_ ?_
      · simpa [hnow, InProgress] using hidle
      · simp [hnow]
      · simpa [hnow] using hover

theorem Told.step {s : State} {effects : List Effect} (h : Told s effects) (input : Input) :
    Told (s.step input).1 (effects ++ (s.step input).2) := by
  rw [← told_news, List.filter_append]
  exact (told_news.mpr h).move (step_move s input)

theorem Told.run {s : State} {effects : List Effect} (h : Told s effects)
    (inputs : List Input) : Told (s.run inputs).1 (effects ++ (s.run inputs).2) := by
  induction inputs generalizing s effects with
  | nil => simpa [State.run] using h
  | cons input rest ih =>
      rw [run_cons, ← List.append_assoc]
      exact ih (h.step input)

/-! ## Exclusion -/

theorem Move.called {s t : State} {news : List Effect} {i : Nat} (m : Move s t news)
    (called : .callBody i ∈ news) : s.stageOf i = some .waiting ∧ s.awaits i = none := by
  cases m with
  | call j waiting free =>
      obtain rfl : i = j := by simpa using called
      exact ⟨waiting, free⟩
  | _ => simp at called

theorem called_of_step {s : State} {input : Input} {i : Nat}
    (called : .callBody i ∈ (s.step input).2) :
    s.stageOf i = some .waiting ∧ s.awaits i = none :=
  (step_move s input).called (List.mem_filter.mpr ⟨called, rfl⟩)

/-- Whatever happens to a supervisor and its tasks, in whatever order: of the bodies that were
launched for a key at most one is in progress; a body is called only when all tasks launched before
it for its key are over and have said so; and the tasks of a key that have ended are the first ones
that were launched for it. -/
theorem bodies_exclude_each_other (name : String) (inputs : List Input) :
    let s := (State.run { name } inputs).1
    let effects := (State.run { name } inputs).2
    (∀ key i j, s.keyOf i = some key → s.keyOf j = some key →
      InProgress effects i → InProgress effects j → i = j) ∧
    (∀ input key i j, .callBody i ∈ (s.step input).2 →
      s.keyOf i = some key → s.keyOf j = some key → j < i →
        s.isEnded j = true ∧ (∃ r, .resolve j r ∈ effects) ∧ .signal (.ended j) ∈ effects) ∧
    (∀ key i j, s.keyOf i = some key → s.keyOf j = some key → i < j →
      s.isEnded j = true → s.isEnded i = true) := by
  intro s effects
  have chained : Chained s := (chained_fresh name).run inputs
  have told : Told s effects := by simpa using (told_fresh name).run inputs
  refine ⟨?_, ?_, ?_⟩
  · intro key i j hi hj hprogress hprogress'
    rw [← told.running] at hprogress hprogress'
    rcases Nat.lt_trichotomy i j with hlt | heq | hlt
    · have := chained.cleared j (.inl hprogress') key i hj hi hlt
      simp [hprogress] at this
    · exact heq
    · have := chained.cleared i (.inl hprogress) key j hi hj hlt
      simp [hprogress'] at this
  · intro input key i j hcalled hi hj hlt
    have hended : s.stageOf j = some .ended :=
      chained.clear_of_awaits (called_of_step hcalled).2 key j hi hj hlt
    exact ⟨(isEnded_iff s j).mpr hended, (told.past j).mp (.inr hended),
      (told.ended j).mp hended⟩
  · intro key i j hi hj hlt hended
    rw [isEnded_iff] at hended ⊢
    exact chained.cleared j (.inr hended) key i hj hi hlt

/-- A second task is dropped while it waits for the first body, and a third one is launched: it is
called once the first body has returned and the dropped task has let go of the key. -/
theorem third_body_called_after_dropped_second :
    let key := Value.number 0
    let inputs : List Input :=
      [.launch key, .begin 0, .launch key, .abort 1, .launch key, .finish 0 (.ok ()), .release 1]
    let s := (State.run { name := "s" } inputs).1
    .callBody 2 ∈ (s.step (.begin 2)).2 ∧ s.isEnded 0 = true ∧ s.isEnded 1 = true := by
  intro key inputs s
  have called : .callBody 2 ∈ (s.step (.begin 2)).2 := .tail _ (.head _)
  have excluded := bodies_exclude_each_other "s" inputs
  exact ⟨called, (excluded.2.1 (.begin 2) key 2 0 called rfl rfl (by decide)).1,
    (excluded.2.1 (.begin 2) key 2 1 called rfl rfl (by decide)).1⟩

end State

end Lifecycle.Supervisor
