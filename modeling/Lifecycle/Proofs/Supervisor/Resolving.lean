import Lifecycle.Proofs.Supervisor.Joining

/-!
# When calls resolve

A call that cancels all owners resolves once the tasks that were registered when it was made have
ended, whatever was launched since.  A call that waits until there are none resolves in a turn in
which there is none.  Until then either of them waits with reason.
-/

namespace Lifecycle.Supervisor.Scenario

open HasExecutor

variable {turn : Option TaskId} {u v w : World} {id : TaskId} {i : Nat} {s : State}
  {pending tasks : List Nat} {r : World × Rest Signal Task} {acts : List Act} {a : Act}
  {setup : Setup}

/-! ## Calls that cancel all owners -/

inductive Follows (tasks : List Nat) (id : TaskId) (w : World) : Prop
  | suspended {pending : List Nat}
      (task : w.executor.task? id = some (.program (.cancelAll (some pending))))
      (left : ∀ i ∈ pending, i ∈ tasks)
      (passed : ∀ i ∈ tasks, i ∈ pending ∨ w.supervisor.isEnded i = true)
  | resolved (known : id < w.executor.nextTask) (gone : w.executor.task? id = none)
      (ended : ∀ i ∈ tasks, w.supervisor.isEnded i = true)

theorem Follows.beside {skip : Option TaskId} {new : Task → Prop} (h : Follows tasks id w)
    (adds : Adds skip new w.executor v.executor) (other : skip ≠ some id)
    (ended : ∀ i, w.supervisor.isEnded i = true → v.supervisor.isEnded i = true) :
    Follows tasks id v := by
  cases h with
  | suspended task left passed =>
      exact .suspended (adds.task_eq other task) left fun i hi => (passed i hi).imp_right (ended i)
  | resolved known gone hended =>
      exact .resolved (Nat.lt_of_lt_of_le known adds.nextTask) (adds.gone other known gone)
        fun i hi => ended i (hended i hi)

theorem Follows.stretch (h : Follows tasks id w) (stretch : Stretch turn w v) :
    Follows tasks id v :=
  h.beside stretch.adds nofun fun _ => stretch.isEnded

theorem Joined.follows (joined : Joined w pending (fun tasks => .cancelAll (some tasks)) r)
    (ordered : w.executor.Listed (some id)) (present : (w.executor.task? id).isSome = true)
    (left : ∀ i ∈ pending, i ∈ tasks)
    (passed : ∀ i ∈ tasks, i ∈ pending ∨ w.supervisor.isEnded i = true) :
    Follows tasks id (Hosted.leave r.1 id r.2).tidy := by
  suffices h : Follows tasks id (Hosted.leave r.1 id r.2) ∧ r.1.executor.Listed (some id) from
    h.1.stretch (Stretch.tidy (listed_leave h.2 r.2))
  cases joined with
  | resolved ended =>
      obtain ⟨hexecutor, hsupervisor⟩ := joined_same w (.cancelAll (some []))
      refine ⟨.resolved ?_ ?_ fun i hi => ?_, hexecutor ▸ ordered⟩
      · rw [executor_leave, hexecutor, Executor.nextTask_left]
        exact ordered.tasks id present
      · rw [executor_leave, hexecutor]
        exact Executor.task?_left present .ended
      · rw [leave_eq, hsupervisor]
        exact (passed i hi).elim (ended i) fun h => h
  | @held i rest live hleft hpassed =>
      have htask : (Hosted.leave w id (.waiting (.program (.cancelAll (some (i :: rest))))
          [.task (.ended i)] none)).executor.task? id =
            some (.program (.cancelAll (some (i :: rest)))) := by
        rw [executor_leave]
        exact Executor.task?_left present _
      refine ⟨.suspended htask (fun j hj => left j (hleft j hj)) fun j hj => ?_, ordered⟩
      rw [leave_eq]
      exact (passed j hj).elim (hpassed j) .inr

theorem follows_call (ordered : w.executor.Listed none)
    (task : w.executor.task? id = some (.program (.cancelAll none)))
    (does : Does w (.turn id) v) : Follows (w.supervisor.owners.map Prod.snd) id v := by
  generalize ha : Act.turn id = a at does
  cases does with
  | aside other => cases ha ▸ other
  | @turned id' t r queued found acts taken =>
      cases ha
      obtain rfl := Option.some.inj (found.symm.trans task)
      have hcancelled := (Leads.start (w := update w (·.call id)) (ordered.call queued)).cancelled
        w.supervisor.owners
      have htask : (update w (·.call id)).executor.task? id = some (.program (.cancelAll none)) :=
        task
      have hjoined := joined_join (w.supervisor.owners.foldl
        (fun w o => Hosting.input w (.cancel o.1)) (update w (·.call id)))
        (w.supervisor.owners.map Prod.snd) fun tasks => .cancelAll (some tasks)
      rw [taken]
      refine hjoined.follows hcancelled.ordered ?_ (fun _ h => h) fun _ => .inl
      rw [hcancelled.task? htask]
      rfl
  | dropped queued found =>
      cases ha
      cases found.symm.trans task

theorem Follows.does (h : Follows tasks id w) (ordered : w.executor.Listed none)
    (does : Does w a v) : Follows tasks id v := by
  by_cases hturn : a.turn? = some id
  · cases does with
    | aside other => cases other.symm.trans hturn
    | @turned id' t r queued task acts taken =>
        cases hturn
        cases h with
        | resolved _ gone => cases gone.symm.trans task
        | @suspended pending found left passed =>
            obtain rfl := Option.some.inj (found.symm.trans task)
            have hjoined := joined_join (update w (·.call id)) pending
              fun tasks => .cancelAll (some tasks)
            rw [taken]
            exact hjoined.follows (ordered.call queued) (ordered.queued id queued) left passed
    | dropped queued task =>
        cases hturn
        cases h with
        | resolved _ gone => cases gone.symm.trans task
        | suspended found => cases found.symm.trans task
  · exact h.beside (does.adds ordered) hturn fun _ => does.isEnded ordered

/-- The call of `id` to cancel all owners was made in this state. -/
def Called (w : World) (acts : List Act) (id : TaskId) (s : State) : Prop :=
  ∃ earlier later, acts = earlier ++ .turn id :: later ∧
    (w.after earlier).executor.task? id = some (.program (.cancelAll none)) ∧
    s = (w.after earlier).supervisor

theorem Called.later (h : Called w acts id s) (a : Act) : Called w (acts ++ [a]) id s := by
  obtain ⟨earlier, later, rfl, task, rfl⟩ := h
  exact ⟨earlier, later ++ [a], by simp, task, rfl⟩

structure Pursued (s : State) (id : TaskId) (w : World) : Prop where
  chained : s.Chained
  follows : Follows (s.owners.map Prod.snd) id w
  keyOf : ∀ i key, s.keyOf i = some key → w.supervisor.keyOf i = some key

theorem Called.pursued (h : Called w acts id s) (settled : Settled w)
    (orderly : w.orderly acts = true) : Pursued s id (w.after acts) := by
  obtain ⟨earlier, later, rfl, task, rfl⟩ := h
  obtain ⟨hearlier, hrest⟩ := (orderly_append w earlier _).mp orderly
  obtain ⟨hadmitted, hlater⟩ := (World.orderly_cons _ _ _).mp hrest
  have hsettled := settled.after hearlier
  rw [after_append]
  refine ⟨hsettled.sound.chained, ?_, fun i key hkey => ?_⟩
  · exact (hsettled.perform hadmitted).after_keeps (fun _ _ _ settled h => h.does settled.ordered)
      hlater (follows_call hsettled.ordered task (hsettled.does hadmitted))
  · obtain ⟨inputs, traced⟩ := traced_after hsettled.sound hsettled.ordered hrest
    rw [traced.supervisor]
    exact State.keyOf_run hkey inputs

theorem suspended_of_does (ordered : w.executor.Listed none) (does : Does w a v)
    (task : v.executor.task? id = some (.program (.cancelAll (some pending)))) :
    (∃ pending, w.executor.task? id = some (.program (.cancelAll (some pending)))) ∨
      a = .turn id ∧ w.executor.task? id = some (.program (.cancelAll none)) := by
  by_cases hturn : a.turn? = some id
  · cases does with
    | aside other => cases other.symm.trans hturn
    | @turned id' t r queued found acts taken =>
        cases hturn
        have hleft : r.2.program? = some (.program (.cancelAll (some pending))) :=
          (task?_tidied (acts.stretch (ordered.call queued)).ordered task).resolve_right
            fun hnew => nomatch hnew rfl
        cases hpending : t.pending? with
        | none => cases pending?_turn acts taken hpending hleft
        | some joins =>
            cases t with
            | waiter | watcher => cases hpending
            | program p =>
                cases p with
                | supervised | releaser => cases hpending
                | cancelAll called =>
                    cases called with
                    | none => exact .inr ⟨rfl, found⟩
                    | some pending => exact .inl ⟨pending, found⟩
                | waitIdle pending =>
                    -- A call of the other kind goes on as one.
                    rcases turn_waitIdle (update w (·.call id)) id pending with
                      ⟨_, hjoined⟩ | ⟨_, hjoined⟩ <;>
                    · rw [← taken] at hjoined
                      cases hjoined <;> cases hleft
    | @dropped id' i b queued found =>
        cases hturn
        have hordered : (update w (·.call id)).executor.Listed (some id) := ordered.call queued
        have hstretch := Stretch.discard hordered id (.program (.supervised i b))
        rcases task?_tidied hstretch.ordered task with hended | hnew
        · cases hended
        · cases hnew rfl
  · have hadds := does.adds ordered
    rcases hadds.fresh id _ hturn task with present | ⟨_, hnew⟩
    · exact .inl ⟨pending, (hadds.task id hturn present).symm.trans task⟩
    · cases hnew rfl

theorem called_of_suspended (orderly : setup.world.orderly acts = true)
    (task : (setup.world.after acts).executor.task? id =
      some (.program (.cancelAll (some pending)))) : ∃ s, Called setup.world acts id s := by
  induction acts using List.reverseRecOn generalizing pending with
  | nil => cases task
  | append_singleton acts a ih =>
      obtain ⟨hacts, hrest⟩ := (orderly_append _ acts [a]).mp orderly
      have hadmitted := ((World.orderly_cons _ _ _).mp hrest).1
      have hsettled := (settled_fresh setup).after hacts
      rw [after_append] at task
      rcases suspended_of_does hsettled.ordered (hsettled.does hadmitted) task with
        ⟨pending, hbefore⟩ | ⟨rfl, hmade⟩
      · obtain ⟨s, hs⟩ := ih hacts hbefore
        exact ⟨s, hs.later a⟩
      · exact ⟨_, acts, [], rfl, hmade, rfl⟩

/-! ## Calls that wait until no key is owned -/

theorem idle_of_resolved (settled : Settled w) (does : Does w a v)
    (task : w.executor.task? id = some (.program (.waitIdle pending)))
    (gone : v.executor.task? id = none) : v.supervisor.owners = [] ∧
      ∀ i < v.supervisor.tasks.length, v.supervisor.isEnded i = true := by
  suffices h : v.supervisor.Chained ∧ v.supervisor.owners = [] from
    ⟨h.2, fun _ => h.1.ended_of_idle h.2⟩
  by_cases hturn : a.turn? = some id
  · cases does with
    | aside other => cases other.symm.trans hturn
    | @turned id' t r queued found acts taken =>
        cases hturn
        obtain rfl := Option.some.inj (found.symm.trans task)
        have hordered : (update w (·.call id)).executor.Listed (some id) :=
          settled.ordered.call queued
        have hstretch := acts.stretch hordered
        have htask : (update w (·.call id)).executor.task? id =
            some (.program (.waitIdle pending)) := task
        have hended := program?_of_gone hstretch.ordered
          (by rw [hstretch.adds.task_eq nofun htask]; rfl) gone
        rcases turn_waitIdle (update w (·.call id)) id pending with
          ⟨⟨i, hi, hlive⟩, hjoined⟩ | ⟨_, hjoined⟩
        · rw [← taken] at hjoined
          cases hjoined with
          | resolved hall => cases hlive.symm.trans (hall i hi)
          | held => cases hended
        · rw [← taken] at hjoined
          cases hjoined with
          | resolved hall =>
              have halike := tidy_alike (Hosted.leave
                (Bodied.joined (update w (·.call id)) (.waitIdle [])) id .ended)
              rw [leave_eq, (joined_same _ _).2] at halike
              refine ⟨settled.sound.chained.alike halike, halike.owners.trans ?_⟩
              exact settled.sound.chained.idle hall
          | held => cases hended
    | dropped queued found =>
        cases hturn
        cases found.symm.trans task
  · cases gone.symm.trans ((does.adds settled.ordered).task_eq hturn task)

/-! ## All calls -/

/-- What calls wait for, and what has ended when they resolve.  Where no task is in the queue, a
call that goes on waits for an owner of the time when it was made; once it is gone, those owners and
the tasks before them have ended and own no key.  A call to wait until no key is owned leaves no
task that has not ended. -/
structure JoinsExactly (w : World) (acts : List Act) : Prop where
  suspended : (w.after acts).executor.ready = [] → ∀ id called,
    (w.after acts).executor.task? id = some (.program (.cancelAll called)) →
      ∃ s, Called w acts id s ∧
        ∃ key i, s.owner? key = some i ∧ (w.after acts).supervisor.isEnded i = false
  resolved : ∀ id s, Called w acts id s → (w.after acts).executor.task? id = none →
    ∀ key i j, s.owner? key = some i → j ≤ i → (w.after acts).supervisor.keyOf j = some key →
      (w.after acts).supervisor.isEnded j = true ∧
        ∀ k, (w.after acts).supervisor.owner? k ≠ some j
  waiting : (w.after acts).executor.ready = [] → ∀ id pending,
    (w.after acts).executor.task? id = some (.program (.waitIdle pending)) →
      ∃ i < (w.after acts).supervisor.tasks.length, (w.after acts).supervisor.isEnded i = false
  idle : ∀ earlier a id pending, acts = earlier ++ [a] →
    (w.after earlier).executor.task? id = some (.program (.waitIdle pending)) →
      (w.after acts).executor.task? id = none → (w.after acts).supervisor.owners = [] ∧
        ∀ i < (w.after acts).supervisor.tasks.length, (w.after acts).supervisor.isEnded i = true

theorem joins_after (setup : Setup) (orderly : setup.world.orderly acts = true) :
    Joins none (setup.world.after acts) :=
  (settled_fresh setup).after_keeps (fun _ _ _ settled h => h.does settled) orderly
    (joins_fresh setup)

theorem calls_join_exactly (setup : Setup) (acts : List Act)
    (orderly : setup.world.orderly acts = true) : JoinsExactly setup.world acts := by
  have hsettled := (settled_fresh setup).after orderly
  have hjoins := joins_after setup orderly
  have hpursued {id : TaskId} {s : State} (called : Called setup.world acts id s) :=
    called.pursued (settled_fresh setup) orderly
  constructor
  · intro still id called task
    cases called with
    | none =>
        rcases (hjoins id _ [] nofun task rfl).awake with ready | ⟨i, rest, heq, _⟩
        · rw [still] at ready
          cases ready
        · cases heq
    | some pending =>
        obtain ⟨s, hs⟩ := called_of_suspended orderly task
        obtain ⟨hchained, hfollows, _⟩ := hpursued hs
        refine ⟨s, hs, ?_⟩
        rcases (hjoins id _ pending nofun task rfl).awake with ready | ⟨i, rest, rfl, live, _⟩
        · rw [still] at ready
          cases ready
        · cases hfollows with
          | resolved _ gone => cases gone.symm.trans task
          | suspended found left _ =>
              cases found.symm.trans task
              obtain ⟨key, howner⟩ := (hchained.mem_owners_iff i).mp (left i List.mem_cons_self)
              exact ⟨key, i, howner, live⟩
  · intro id s called gone key i j owner hle hkey
    obtain ⟨hchained, hfollows, hkeys⟩ := hpursued called
    cases hfollows with
    | suspended found => cases gone.symm.trans found
    | resolved _ _ ended =>
        have hended := ended i ((hchained.mem_owners_iff i).mpr ⟨key, owner⟩)
        have hj := hsettled.sound.chained.isEnded_of_le
          (hkeys i key (hchained.owner key i owner).1) hended hkey hle
        refine ⟨hj, fun k hk => ?_⟩
        cases hj.symm.trans (hsettled.sound.chained.isEnded_of_owner hk)
  · intro still id pending task
    obtain ⟨known, awake⟩ := hjoins id _ pending nofun task rfl
    rcases awake with ready | ⟨i, rest, rfl, live, _⟩
    · rw [still] at ready
      cases ready
    · exact ⟨i, known i List.mem_cons_self, live⟩
  · rintro earlier a id pending rfl task gone
    obtain ⟨hearlier, hrest⟩ := (orderly_append _ earlier [a]).mp orderly
    have hsettled := (settled_fresh setup).after hearlier
    rw [after_append] at gone ⊢
    have hadmitted := ((World.orderly_cons _ _ _).mp hrest).1
    exact idle_of_resolved hsettled (hsettled.does hadmitted) task gone

/-- While both calls wait for the first body, its task is replaced, the new one is dropped before
its turn, and a task of another key is launched. -/
def contested : List Act :=
  [.step (.launch (.number 7) "first" [.pause (.hold "gate")] none none), .turn 0,
    .step (.launch (.number 8) "other" [.untilCancelled] none none), .turn 1, .step .cancelAll,
    .step .waitIdle, .turn 2, .turn 3, .turn 1,
    .step (.launch (.number 7) "second" [] none none), .step (.abort "second"), .turn 4, .turn 5,
    .step (.launch (.number 9) "late" [.pause (.hold "late")] none none), .turn 6,
    .step (.release "gate"), .turn 0, .turn 2, .turn 3, .turn 5, .turn 3, .step (.release "late"),
    .turn 6, .turn 3]

theorem calls_of_contested_registry :
    let setup : Setup := { managed := false }
    setup.world.orderly contested = true ∧
      (setup.world.after (contested.take 15)).executor.ready = [] ∧
      (setup.world.after (contested.take 15)).supervisor.isEnded 0 = false ∧
      (setup.world.after contested).notes.map Prod.fst =
        ["first", "other", "other", "other", "late", "first", "cancel_all", "late", "wait_idle"] ∧
      JoinsExactly setup.world contested := by
  intro setup
  have horderly : setup.world.orderly contested = true := by decide +kernel
  exact ⟨horderly, by decide +kernel, by decide +kernel, by decide +kernel,
    calls_join_exactly setup contested horderly⟩

end Lifecycle.Supervisor.Scenario
