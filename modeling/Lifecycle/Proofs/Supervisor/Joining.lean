import Lifecycle.Proofs.Supervisor.Stretches

/-!
# Calls that join tasks

Whoever cancels all owners, or waits until there are none, goes by a list of tasks that was right
when it was made, and waits for them one after the other.  While such a call is suspended, the task
it waits for has not ended, and the end of that task will put the call into the queue.  So a call
that is neither over nor in the queue waits with reason, and one that is over has seen all ends.
-/

namespace Lifecycle.Supervisor

namespace State

variable {s : State} {given : Input} {i : Nat} {key : Value}

theorem Chained.owner?_of_mem (h : Chained s) (mem : (key, i) ∈ s.owners) :
    s.owner? key = some i := by
  obtain ⟨before, rest, hsplit⟩ := List.append_of_mem mem
  have hdistinct := h.distinct
  rw [keys, hsplit, List.map_append, List.map_cons, List.nodup_append] at hdistinct
  refine List.lookup_eq_some_iff.mpr ⟨before, rest, hsplit, fun o ho => ?_⟩
  exact bne_iff_ne.mpr (hdistinct.2.2 o.1 (List.mem_map_of_mem ho) key List.mem_cons_self).symm

theorem Chained.mem_owners_iff (h : Chained s) (i : Nat) :
    i ∈ s.owners.map Prod.snd ↔ ∃ key, s.owner? key = some i := by
  simp only [List.mem_map, Prod.exists, exists_eq_right]
  refine exists_congr fun key => ⟨h.owner?_of_mem, fun howner => ?_⟩
  obtain ⟨before, rest, hsplit, _⟩ := List.lookup_eq_some_iff.mp howner
  rw [hsplit]
  exact List.mem_append_right _ List.mem_cons_self

theorem Chained.isEnded_of_owner (h : Chained s) (owner : s.owner? key = some i) :
    s.isEnded i = false :=
  (isEnded_eq_false_iff _ _).mpr (h.owner key i owner).2.1

theorem Chained.lt_of_owner (h : Chained s) (owner : s.owner? key = some i) :
    i < s.tasks.length :=
  lt_of_keyOf (h.owner key i owner).1

theorem Chained.idle (h : Chained s) (ended : ∀ i ∈ s.owners.map Prod.snd, s.isEnded i = true) :
    s.owners = [] := by
  refine List.eq_nil_iff_forall_not_mem.mpr fun ⟨key, i⟩ mem => ?_
  have hended := ended i (List.mem_map_of_mem mem)
  rw [h.isEnded_of_owner (h.owner?_of_mem mem)] at hended
  cases hended

theorem Chained.ended_of_idle (h : Chained s) (idle : s.owners = []) (known : i < s.tasks.length) :
    s.isEnded i = true := by
  have hkey : s.keyOf i = some s.tasks[i].key := by simp [keyOf, List.getElem?_eq_getElem known]
  exact (isEnded_iff _ _).mpr (h.unowned _ i (by rw [owner?, idle]; rfl) hkey)

theorem Chained.isEnded_of_le (h : Chained s) {j : Nat} (launched : s.keyOf i = some key)
    (ended : s.isEnded i = true) (before : s.keyOf j = some key) (le : j ≤ i) :
    s.isEnded j = true := by
  rcases Nat.lt_or_eq_of_le le with hlt | rfl
  · rw [isEnded_iff] at ended ⊢
    exact h.cleared i (.inr ended) key j launched before hlt
  · exact ended

theorem tasks_length_step_le (s : State) (given : Input) :
    s.tasks.length ≤ (s.step given).1.tasks.length := by
  rw [tasks_length_step]
  exact Nat.le_add_right _ _

theorem isEnded_step (live : s.isEnded i = false) (given : Input) :
    (s.step given).1.isEnded i = false ∨ .signal (.ended i) ∈ (s.step given).2 := by
  cases hended : (s.step given).1.isEnded i with
  | false => exact .inl rfl
  | true =>
      exact .inr (ended_of_step ((isEnded_eq_false_iff _ _).mp live) ((isEnded_iff _ _).mp hended))

theorem stillRunning_cases (s : State) (pending : List Nat) :
    s.stillRunning pending = [] ∧ (∀ i ∈ pending, s.isEnded i = true) ∨
      ∃ i rest, s.stillRunning pending = i :: rest ∧ s.isEnded i = false ∧
        (∀ j ∈ i :: rest, j ∈ pending) ∧ ∀ j ∈ pending, j ∈ i :: rest ∨ s.isEnded j = true := by
  rw [stillRunning]
  induction pending with
  | nil => exact .inl ⟨rfl, fun _ => nofun⟩
  | cons i rest ih =>
      cases hended : s.isEnded i with
      | false =>
          right
          refine ⟨i, rest, by rw [List.dropWhile_cons_of_neg (by simp [hended])], hended,
            fun _ => id, fun _ => .inl⟩
      | true =>
          rw [List.dropWhile_cons_of_pos hended]
          rcases ih with ⟨heq, hall⟩ | ⟨j, more, heq, hlive, hleft, hpassed⟩
          · exact .inl ⟨heq, List.forall_mem_cons.mpr ⟨hended, hall⟩⟩
          · exact .inr ⟨j, more, heq, hlive, fun k hk => List.mem_cons_of_mem _ (hleft k hk),
              List.forall_mem_cons.mpr ⟨.inr hended, hpassed⟩⟩

end State

namespace Scenario

open HasExecutor

variable {turn : Option TaskId} {u v w : World} {id k : TaskId} {i : Nat} {t : Task}
  {given : Input} {rest : Rest Signal Task} {pending tasks : List Nat}
  {program : List Nat → Program Body} {r : World × Rest Signal Task} {acts : List Act} {a : Act}

/-! ## How a call leaves its turn -/

def Task.pending? : Task → Option (List Nat)
  | .program (.cancelAll none) => some []
  | .program (.cancelAll (some pending)) | .program (.waitIdle pending) => some pending
  | .program (.supervised _ _) | .program (.releaser _) | .waiter _ _ | .watcher _ _ _ => none

/-- What comes of waiting for the tasks. -/
inductive Joined (w : World) (pending : List Nat) (program : List Nat → Program Body) :
    World × Rest Signal Task → Prop
  | resolved (ended : ∀ i ∈ pending, w.supervisor.isEnded i = true) :
      Joined w pending program (Bodied.joined w (program []), .ended)
  | held {i : Nat} {rest : List Nat} (live : w.supervisor.isEnded i = false)
      (left : ∀ j ∈ i :: rest, j ∈ pending)
      (passed : ∀ j ∈ pending, j ∈ i :: rest ∨ w.supervisor.isEnded j = true) :
      Joined w pending program
        (w, .waiting (.program (program (i :: rest))) [.task (.ended i)] none)

theorem joined_join (w : World) (pending : List Nat) (program : List Nat → Program Body) :
    Joined w pending program (Bodied.join w pending program) := by
  rw [Bodied.join, show Hosting.state w = w.supervisor from rfl]
  rcases w.supervisor.stillRunning_cases pending with
    ⟨heq, hended⟩ | ⟨i, rest, heq, hlive, hleft, hpassed⟩
  · rw [heq]
    exact .resolved hended
  · rw [heq]
    exact .held hlive hleft hpassed

theorem joined_same (w : World) (p : Program Body) :
    (Bodied.joined w p).executor = w.executor ∧ (Bodied.joined w p).supervisor = w.supervisor := by
  cases p <;> exact ⟨rfl, rfl⟩

theorem turn_waitIdle (w : World) (id : TaskId) (pending : List Nat) :
    (∃ i ∈ pending, w.supervisor.isEnded i = false) ∧
        Joined w pending .waitIdle (Hosted.turn w id (.program (.waitIdle pending))) ∨
      (∀ i ∈ pending, w.supervisor.isEnded i = true) ∧
        Joined w (w.supervisor.owners.map Prod.snd) .waitIdle
          (Hosted.turn w id (.program (.waitIdle pending))) := by
  simp only [Hosted.turn, Bodied.turn, show Hosting.state w = w.supervisor from rfl]
  rcases w.supervisor.stillRunning_cases pending with
    ⟨heq, hended⟩ | ⟨i, rest, heq, hlive, hleft, hpassed⟩
  · rw [heq]
    exact .inr ⟨hended, joined_join ..⟩
  · rw [heq]
    exact .inl ⟨⟨i, hleft i List.mem_cons_self, hlive⟩, .held hlive hleft hpassed⟩

/-- Every turn of a call comes to waiting for tasks that it knew already, or for all owners. -/
theorem joined_turn (ordered : w.executor.Listed (some id)) (joins : t.pending? = some pending) :
    ∃ v tasks program, Leads (some id) w v ∧ Joined v tasks program (Hosted.turn w id t) ∧
      (tasks = pending ∨ tasks = w.supervisor.owners.map Prod.snd) ∧
      ∀ more, Task.pending? (.program (program more)) = some more := by
  have hstart : Leads (some id) w w := .start ordered
  cases t with
  | waiter | watcher => cases joins
  | program p =>
      cases p with
      | supervised | releaser => cases joins
      | cancelAll called =>
          cases called with
          | none =>
              exact ⟨_, _, fun tasks => .cancelAll (some tasks), hstart.cancelled _,
                joined_join .., .inr rfl, fun _ => rfl⟩
          | some pending =>
              cases joins
              exact ⟨_, _, fun tasks => .cancelAll (some tasks), hstart, joined_join ..,
                .inl rfl, fun _ => rfl⟩
      | waitIdle pending =>
          cases joins
          rcases turn_waitIdle w id pending with ⟨_, hjoined⟩ | ⟨_, hjoined⟩
          · exact ⟨_, _, _, hstart, hjoined, .inl rfl, fun _ => rfl⟩
          · exact ⟨_, _, _, hstart, hjoined, .inr rfl, fun _ => rfl⟩

theorem pending?_turn (acts : Acts id w t r) (taken : r = Hosted.turn w id t)
    (idle : t.pending? = none) {t' : Task} (program : r.2.program? = some t') :
    t'.pending? = none := by
  cases acts with
  | waits place awaits =>
      cases program
      exact idle
  | skips | releases => cases program
  | begins _ _ runs | resumes runs =>
      cases runs with
      | pauses leads hprogram =>
          rw [hprogram] at program
          cases program
          rfl
      | returns | panics => cases program
  | stands bystander leads stays =>
      cases t with
      | program p =>
          cases p with
          | supervised | releaser => cases bystander
          | cancelAll called => cases called <;> cases idle
          | waitIdle => cases idle
      | waiter name i =>
          rw [taken] at program
          simp only [Hosted.turn] at program
          split at program <;> cases program
          rfl
      | watcher name c v =>
          rw [taken] at program
          simp only [Hosted.turn, World.watch] at program
          repeat' split at program
          all_goals cases program
          all_goals rfl

/-! ## No call is forgotten -/

structure Poised (w : World) (id : TaskId) (pending : List Nat) : Prop where
  known : ∀ i ∈ pending, i < w.supervisor.tasks.length
  awake : id ∈ w.executor.ready ∨ ∃ i rest, pending = i :: rest ∧
    w.supervisor.isEnded i = false ∧ (.task (.ended i), id) ∈ w.executor.waits

def Joins (turn : Option TaskId) (w : World) : Prop :=
  ∀ id t pending, turn ≠ some id → w.executor.task? id = some t → t.pending? = some pending →
    Poised w id pending

theorem joins_fresh (s : Setup) : Joins none s.world := fun _ _ _ _ => nofun

theorem Poised.spared (h : Poised w id pending)
    (spared : Executor.Spared id w.executor v.executor) (supervisor : v.supervisor = w.supervisor) :
    Poised v id pending := by
  refine ⟨by rw [supervisor]; exact h.known, ?_⟩
  rcases h.awake with ready | ⟨i, rest, heq, live, waits⟩
  · exact .inl (spared.ready ready)
  · rcases spared.waits _ waits with hwaits | hready
    · exact .inr ⟨i, rest, heq, by rwa [supervisor], hwaits⟩
    · exact .inl hready

theorem Poised.input (h : Poised w id pending) (ordered : w.executor.Ordered turn)
    (other : turn ≠ some id) (present : (w.executor.task? id).isSome = true) (given : Input) :
    Poised (Hosting.input w given) id pending := by
  have hdelivers := delivers_input ordered given
  have hspared := hdelivers.spared id present other
  refine ⟨fun i hi => ?_, ?_⟩
  · rw [supervisor_input]
    exact Nat.lt_of_lt_of_le (h.known i hi) (State.tasks_length_step_le _ _)
  · rcases h.awake with ready | ⟨i, rest, heq, live, waits⟩
    · exact .inl (hspared.ready ready)
    · rcases State.isEnded_step live given with hlive | hended
      · rcases hspared.waits _ waits with hwaits | hready
        · exact .inr ⟨i, rest, heq, by rwa [supervisor_input], hwaits⟩
        · exact .inl hready
      · exact .inl (hdelivers.woken id _ present other ⟨i, rfl, hended⟩ waits)

theorem Task.pending?_of_isNewcomer (newcomer : t.isNewcomer = true)
    (joins : t.pending? = some pending) : pending = [] := by
  cases t with
  | waiter | watcher => cases joins
  | program p =>
      cases p with
      | supervised | releaser => cases joins
      | cancelAll called =>
          cases called with
          | none => exact (Option.some.inj joins).symm
          | some => cases newcomer
      | waitIdle tasks =>
          cases tasks with
          | nil => exact (Option.some.inj joins).symm
          | cons => cases newcomer

theorem Task.isBystander_of_pending? (joins : t.pending? = some pending) :
    t.isBystander = true := by
  cases t with
  | waiter | watcher => rfl
  | program p => cases p <;> first | rfl | cases joins

theorem Joins.stretch (h : Joins turn w) (stretch : Stretch turn w v) : Joins turn v := by
  induction stretch with
  | start => exact h
  | @calm u v _ calm supervisor ih =>
      intro id t pending other task joins
      rcases calm.fresh id t task with present | enters
      · have hspared := calm.spared id present other
        exact (ih id t pending other (hspared.task.symm.trans task) joins).spared hspared supervisor
      · rw [Task.pending?_of_isNewcomer enters.newcomer joins]
        exact ⟨fun _ => nofun, .inl enters.ready⟩
  | @input u stretch given ih =>
      intro id t pending other task joins
      have hadds := adds_input stretch.ordered.toOrdered given
      rcases hadds.fresh id t nofun task with present | ⟨_, hactive⟩
      · have hold := (hadds.task id nofun present).symm.trans task
        exact (ih id t pending other hold joins).input stretch.ordered.toOrdered other present given
      · rw [Task.isBystander_of_pending? joins] at hactive
        cases hactive

theorem Stretch.length_le (stretch : Stretch turn w v) :
    w.supervisor.tasks.length ≤ v.supervisor.tasks.length := by
  induction stretch with
  | start => exact Nat.le_refl _
  | calm _ _ supervisor ih => rwa [supervisor]
  | input _ given ih =>
      rw [supervisor_input]
      exact Nat.le_trans ih (State.tasks_length_step_le _ given)

theorem Joins.call (h : Joins none w) (ordered : w.executor.Listed none)
    (queued : id ∈ w.executor.ready) : Joins (some id) (update w (·.call id)) := by
  intro k t pending other task joins
  have hpoised := h k t pending nofun task joins
  refine ⟨hpoised.known, hpoised.awake.imp_left ?_⟩
  exact (Executor.keeps_call ordered.turn (ordered.queued id queued)).ready k other

theorem Joins.left (h : Joins (some id) w) (ordered : w.executor.Listed (some id))
    (own : ∀ t pending, rest.program? = some t → t.pending? = some pending →
      Poised (Hosted.leave w id rest) id pending) : Joins none (Hosted.leave w id rest) := by
  have hkeeps := Executor.keeps_left ordered.turn rest
  intro k t pending _ task joins
  rw [executor_leave] at task
  by_cases hk : some id = some k
  · cases hk
    exact own t pending (Executor.program?_of_left task) joins
  · have hold : w.executor.task? k = some t := (hkeeps.task k hk).symm.trans task
    have hspared := hkeeps.spared hk (by rw [hold]; rfl) (ordered.idle hk)
    rw [← executor_leave] at hspared
    exact (h k t pending hk hold joins).spared hspared (by rw [leave_eq])

theorem Joined.poised (joined : Joined w tasks program r)
    (known : ∀ i ∈ tasks, i < w.supervisor.tasks.length)
    (names : ∀ more, Task.pending? (.program (program more)) = some more)
    (found : r.2.program? = some t) (joins : t.pending? = some pending) :
    Poised (Hosted.leave r.1 id r.2) id pending := by
  cases joined with
  | resolved => cases found
  | @held i rest live left passed =>
      cases found
      rw [names, Option.some.injEq] at joins
      subst joins
      refine ⟨fun j hj => ?_, .inr ⟨i, rest, rfl, ?_, ?_⟩⟩
      · rw [leave_eq]
        exact known j (left j hj)
      · rwa [leave_eq]
      · rw [executor_leave]
        exact Executor.mem_waits_suspend List.mem_cons_self _ _

theorem Joins.does (h : Joins none w) (settled : Settled w) (does : Does w a v) :
    Joins none v := by
  cases does with
  | aside _ stretch => exact h.stretch stretch
  | @turned id t r queued task acts taken =>
      have hordered : (update w (·.call id)).executor.Listed (some id) :=
        settled.ordered.call queued
      have hstretch := acts.stretch hordered
      refine Joins.stretch ?_ (Stretch.tidy (listed_leave hstretch.ordered _))
      refine ((h.call settled.ordered queued).stretch hstretch).left hstretch.ordered ?_
      intro t' pending' found joins
      cases hpending : t.pending? with
      | none => cases (pending?_turn acts taken hpending found).symm.trans joins
      | some pending =>
          obtain ⟨u, tasks, program, hleads, hjoined, htasks, hnames⟩ :=
            joined_turn hordered hpending
          rw [← taken] at hjoined
          refine hjoined.poised (fun i hi => ?_) hnames found joins
          refine Nat.lt_of_lt_of_le ?_ hleads.stretch.length_le
          rcases htasks with rfl | rfl
          · exact (h id t tasks nofun task hpending).known i hi
          · obtain ⟨key, howner⟩ := (settled.sound.chained.mem_owners_iff i).mp hi
            exact settled.sound.chained.lt_of_owner howner
  | @dropped id i b queued task =>
      have hordered : (update w (·.call id)).executor.Listed (some id) :=
        settled.ordered.call queued
      have hstretch := Stretch.discard hordered id (.program (.supervised i b))
      refine Joins.stretch ?_ (Stretch.tidy (listed_leave hstretch.ordered _))
      exact ((h.call settled.ordered queued).stretch hstretch).left hstretch.ordered
        fun _ _ => nofun

end Scenario

end Lifecycle.Supervisor
