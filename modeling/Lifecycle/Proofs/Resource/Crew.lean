import Lifecycle.Proofs.Resource.Aside

/-!
# The tasks behind the loads

At most one task of the executor works for a task of the supervisor: it waits to begin or runs the
body.  What the resources hold and what was reported is what the record tells of loads and users.
-/

namespace Lifecycle.Supervisor.Scenario

open HasExecutor
open Resource

variable {source : String} {turn : Option TaskId} {acting : Option Nat} {v w : World}
  {log lines : Record}
  {news : List (Nat × Result)} {id : TaskId} {i : Nat} {r : Result} {given : Input}
  {who : Loader Value} {d : Deed Value}

/-- A task of the executor works for the task, from this place of its program on. -/
structure Serves (w : World) (i : Nat) (b : Option Body) : Prop where
  stage : w.supervisor.stageOf i = some (if b.isSome then .running else .waiting)
  load : ∀ body, b = some body → w.bodies[i]?.bind Body.load = body.load

structure Abreast (w : World) (log : Record) (i : Nat) : Prop where
  fresh : ¬ w.supervisor.Started i → deedsOf i log = []
  running : ∀ who, w.loader? i = some who → w.supervisor.stageOf i = some .running →
    Open who.load (deedsOf i log)
  complete : Complete (deedsOf i log)

def Told (w : World) (log : Record) (i : Nat) : Result → Prop
  | .returned (.ok .skipped) => deedsOf i log = []
  | .returned (.ok _) =>
      ∀ who, w.loader? i = some who → ∃ r, Deed.returned r ∈ deedsOf i log
  | .returned (.error _) => w.loader? i = none
  | .aborted => True
  | .panicked _ => ∀ who, w.loader? i = some who → Open who.load (deedsOf i log)

structure Fits (w : World) (log : Record) (i : Nat) (r : Result) : Prop where
  launched : i < w.bodies.length
  ended : r ≠ .aborted → w.supervisor.stageOf i = some .ended
  told : Told w log i r

/-- The tasks of the executor are those of the supervisor.  Only the one that has its turn may work
for `acting`. -/
structure Staffed (turn : Option TaskId) (acting : Option Nat) (w : World) : Prop where
  ordered : w.executor.Ordered turn
  launched : ∀ i, acting = some i → i < w.bodies.length
  crew : ∀ id i b, turn ≠ some id → w.executor.task? id = some (.program (.supervised i b)) →
    acting ≠ some i ∧ Serves w i b
  unique : ∀ id k i b b', turn ≠ some id → turn ≠ some k →
    w.executor.task? id = some (.program (.supervised i b)) →
    w.executor.task? k = some (.program (.supervised i b')) → id = k

/-- The record tells what has happened.  Nothing is said of how far `acting` has come. -/
structure Recorded (source : String) (acting : Option Nat) (w : World) (log : Record) : Prop where
  name : w.supervisor.name = source
  chained : w.supervisor.Chained
  bodies : w.bodies.length = w.supervisor.tasks.length
  named : ∀ r ∈ w.resources, r.2 < w.cells.length
  loads : ∀ i who, w.loader? i = some who → who.cell < w.cells.length
  legal : Legal log
  known : ∀ who d, .load who d ∈ log → w.loader? who.task = some who
  writes : ∀ c, (w.cell c).writes = writesTo c log
  reports : w.reports = log.filterMap (Line.report? source)
  abreast : ∀ i, acting ≠ some i → Abreast w log i
  results : ∀ i r, (i, r) ∈ w.results → Fits w log i r

structure Kept (source : String) (turn : Option TaskId) (acting : Option Nat) (w : World)
    (log : Record) : Prop extends Staffed turn acting w, Recorded source acting w log

theorem loader?_congr (key : v.supervisor.keyOf i = w.supervisor.keyOf i)
    (body : v.bodies[i]? = w.bodies[i]?) : v.loader? i = w.loader? i := by
  rw [World.loader?, World.loader?, key, body]

theorem Serves.congr {b : Option Body} (h : Serves w i b)
    (stage : v.supervisor.stageOf i = w.supervisor.stageOf i)
    (body : v.bodies[i]? = w.bodies[i]?) : Serves v i b where
  stage := stage.trans h.stage
  load := by
    rw [body]
    exact h.load

theorem Fits.later {later : Record} (fits : Fits w log i r)
    (bodies : w.bodies.length ≤ v.bodies.length)
    (loader : i < w.bodies.length → v.loader? i = w.loader? i)
    (ended : w.supervisor.stageOf i = some .ended →
      v.supervisor.stageOf i = some .ended ∧ deedsOf i later = deedsOf i log) :
    Fits v later i r := by
  obtain ⟨hlaunched, hended, htold⟩ := fits
  refine ⟨Nat.lt_of_lt_of_le hlaunched bodies, fun other => (ended (hended other)).1, ?_⟩
  by_cases haborted : r = .aborted
  · rw [haborted]
    trivial
  · have hdeeds := (ended (hended haborted)).2
    unfold Told at htold ⊢
    rwa [loader hlaunched, hdeeds]

theorem Staffed.quiet (h : Staffed turn acting w) (quiet : Quiet turn w.executor v.executor)
    (bodies : w.bodies.length ≤ v.bodies.length)
    (serves : ∀ i b, acting ≠ some i → Serves w i b → Serves v i b) : Staffed turn acting v where
  ordered := quiet.ordered
  launched i act := Nat.lt_of_lt_of_le (h.launched i act) bodies
  crew id i b other task := by
    obtain ⟨hidle, hserves⟩ := h.crew id i b other (quiet.supervised task)
    exact ⟨hidle, serves i b hidle hserves⟩
  unique id k i b b' hid hk task task' :=
    h.unique id k i b b' hid hk (quiet.supervised task) (quiet.supervised task')

theorem Recorded.known_eq (h : Recorded source acting w log)
    (loader : w.loader? who.task = some who) (other : Loader Value) (d : Deed Value)
    (line : .load other d ∈ log) (task : other.task = who.task) : other = who := by
  have hknown := h.known other d line
  rw [task, loader] at hknown
  exact (Option.some.inj hknown).symm

theorem Recorded.abreast_all (h : Recorded source none w log) (i : Nat) : Abreast w log i :=
  h.abreast i (Option.some_ne_none i).symm

/-! ## Beside the supervisor -/

theorem Recorded.aside (h : Recorded source acting w log) (aside : Aside turn w lines news v)
    (legal : Legal (log ++ lines))
    (own : ∀ who d, .load who d ∈ lines → acting = some who.task ∧
      w.loader? who.task = some who ∧ w.supervisor.stageOf who.task ≠ some .ended)
    (fits : ∀ i r, (i, r) ∈ news → Fits w log i r) : Recorded source acting v (log ++ lines) := by
  have hloader (i : Nat) : v.loader? i = w.loader? i :=
    loader?_congr (by rw [aside.supervisor]) (by rw [aside.bodies])
  -- The lines are of `acting`, which has not ended: the others stay as they are.
  have hothers (i : Nat) (other : acting ≠ some i ∨ w.supervisor.stageOf i = some .ended) :
      deedsOf i (log ++ lines) = deedsOf i log := by
    have hnone : deedsOf i lines = [] := by
      refine deedsOf_eq_nil fun who d hline => ?_
      rintro rfl
      obtain ⟨hact, _, hlive⟩ := own who d hline
      exact other.elim (absurd hact) hlive
    rw [deedsOf_append, hnone, List.append_nil]
  constructor
  · rw [aside.supervisor]
    exact h.name
  · rw [aside.supervisor]
    exact h.chained
  · rw [aside.supervisor, aside.bodies]
    exact h.bodies
  · exact aside.named h.named
  · intro i who loader
    exact Nat.lt_of_lt_of_le (h.loads i who ((hloader i).symm.trans loader)) aside.cells
  · exact legal
  · intro who d hline
    rw [hloader]
    rcases List.mem_append.mp hline with hold | hnew
    · exact h.known who d hold
    · exact (own who d hnew).2.1
  · intro c
    rw [aside.writes, h.writes, writesTo_append]
  · rw [aside.reports, h.name, h.reports, List.filterMap_append]
  · intro i other
    obtain ⟨hfresh, hrunning, hcomplete⟩ := h.abreast i other
    constructor <;> rw [hothers i (.inl other)]
    · rw [aside.supervisor]
      exact hfresh
    · rw [aside.supervisor, hloader]
      exact hrunning
    · exact hcomplete
  · intro i r hmem
    rw [aside.results] at hmem
    refine Fits.later ((List.mem_append.mp hmem).elim (h.results i r) (fits i r))
      (Nat.le_of_eq (by rw [aside.bodies])) (fun _ => hloader i) fun ended => ?_
    rw [aside.supervisor]
    exact ⟨ended, hothers i (.inr ended)⟩

theorem Kept.aside (kept : Kept source turn acting w log) (aside : Aside turn w lines news v)
    (legal : Legal (log ++ lines))
    (own : ∀ who d, .load who d ∈ lines → acting = some who.task ∧
      w.loader? who.task = some who ∧ w.supervisor.stageOf who.task ≠ some .ended)
    (fits : ∀ i r, (i, r) ∈ news → Fits w log i r) : Kept source turn acting v (log ++ lines) where
  toStaffed := kept.toStaffed.quiet aside.executor (Nat.le_of_eq (by rw [aside.bodies]))
    fun _ _ _ serves => serves.congr (by rw [aside.supervisor]) (by rw [aside.bodies])
  toRecorded := kept.toRecorded.aside aside legal own fits

theorem Kept.beside (kept : Kept source turn acting w log) (aside : Aside turn w [] news v)
    (fits : ∀ i r, (i, r) ∈ news → Fits w log i r) : Kept source turn acting v log := by
  rw [← List.append_nil log]
  refine kept.aside aside ?_ (fun _ _ h => absurd h List.not_mem_nil) fits
  rw [List.append_nil]
  exact kept.legal

theorem Kept.silent (kept : Kept source turn acting w log) (aside : Aside turn w [] [] v) :
    Kept source turn acting v log :=
  kept.beside aside fun _ _ h => absurd h List.not_mem_nil

/-! ## Inputs -/

def stepped (w : World) (given : Input) : World :=
  { w with supervisor := (w.supervisor.step given).1 }

theorem keyOf_step {s : State} (old : given.launched? = none) (i : Nat) :
    (s.step given).1.keyOf i = s.keyOf i := by
  rw [State.keyOf_eq, State.keyOf_eq, State.taskKeys_step, old, Option.toList_none, List.append_nil]

theorem loader?_stepped (old : given.launched? = none) (i : Nat) :
    (stepped w given).loader? i = w.loader? i :=
  loader?_congr (keyOf_step old i) rfl

theorem alike_performAll (effects : List Effect) (w : World) :
    (effects.foldl Hosting.perform w).supervisor = w.supervisor ∧
      (effects.foldl Hosting.perform w).bodies = w.bodies := by
  induction effects generalizing w with
  | nil => exact ⟨rfl, rfl⟩
  | cons e rest ih =>
      obtain ⟨hsupervisor, hbodies⟩ := ih (Hosting.perform w e)
      cases e <;> exact ⟨hsupervisor, hbodies⟩

@[simp] theorem supervisor_input (w : World) (given : Input) :
    (Hosting.input w given).supervisor = (w.supervisor.step given).1 :=
  (alike_performAll _ (stepped w given)).1

@[simp] theorem bodies_input (w : World) (given : Input) :
    (Hosting.input w given).bodies = w.bodies :=
  (alike_performAll _ (stepped w given)).2

theorem loader?_input (old : given.launched? = none) (i : Nat) :
    (Hosting.input w given).loader? i = w.loader? i :=
  loader?_congr (by rw [supervisor_input, keyOf_step old]) (by rw [bodies_input])

theorem Abreast.congr (h : Abreast w log i) (supervisor : v.supervisor = w.supervisor)
    (bodies : v.bodies = w.bodies) : Abreast v log i := by
  have hloader : v.loader? i = w.loader? i :=
    loader?_congr (by rw [supervisor]) (by rw [bodies])
  obtain ⟨hfresh, hrunning, hcomplete⟩ := h
  constructor
  · rw [supervisor]
    exact hfresh
  · rw [supervisor, hloader]
    exact hrunning
  · exact hcomplete

theorem Abreast.stepped (h : Abreast w log i) (old : given.launched? = none)
    (other : given ≠ .begin i) : Abreast (stepped w given) log i where
  fresh new := h.fresh fun started => new (started.step given)
  running who loader running :=
    h.running who ((loader?_stepped old i).symm.trans loader)
      (State.running_of_step other running)
  complete := h.complete

theorem Kept.stepped (kept : Kept source turn acting w log) (old : given.launched? = none)
    (own : ∀ i, given.task? = some i → acting = some i) :
    Kept source turn acting (stepped w given) log := by
  have hloader := loader?_stepped (w := w) old
  constructor
  · refine kept.toStaffed.quiet (v := Scenario.stepped w given) (.refl kept.ordered) (Nat.le_refl _)
      fun i b idle serves => serves.congr ?_ rfl
    exact State.stageOf_step (fun task => idle (own i task)) (State.lt_of_stageOf serves.stage)
  · constructor
    · exact (State.name_step _ given).trans kept.name
    · exact kept.chained.step given
    · have hkeys := congrArg List.length (State.taskKeys_step w.supervisor given)
      rw [old, Option.toList_none, List.append_nil, State.taskKeys, State.taskKeys, List.length_map,
        List.length_map] at hkeys
      exact kept.bodies.trans hkeys.symm
    · exact kept.named
    · exact fun i who loader => kept.loads i who ((hloader i).symm.trans loader)
    · exact kept.legal
    · exact fun who d hline => (hloader _).trans (kept.known who d hline)
    · exact kept.writes
    · exact kept.reports
    · intro i idle
      refine (kept.abreast i idle).stepped old ?_
      rintro rfl
      exact idle (own i rfl)
    · exact fun i r hmem => (kept.results i r hmem).later (Nat.le_refl _) (fun _ => hloader i)
        fun ended => ⟨State.stageOf_step_ended ended given, rfl⟩

theorem Kept.input (kept : Kept source turn acting w log) (old : given.launched? = none)
    (own : ∀ i, given.task? = some i → acting = some i)
    (told : ∀ i r, State.Tells i given r → Told w log i r) :
    Kept source turn acting (Hosting.input w given) log := by
  have hstepped := kept.stepped old own
  obtain ⟨news, haside, hnews⟩ :=
    Aside.performAll (w := Scenario.stepped w given) kept.ordered (State.tame_step old)
  refine hstepped.beside haside fun i r hmem => ?_
  obtain ⟨htells, hended⟩ := hnews i r hmem
  refine ⟨hstepped.launched i (own i htells.own), hended, ?_⟩
  have htold := told i r htells
  unfold Told at htold ⊢
  rwa [loader?_stepped old]

theorem Kept.request (kept : Kept source turn acting w log) (old : given.launched? = none)
    (free : given.task? = none) : Kept source turn acting (Hosting.input w given) log := by
  refine kept.input old (fun i own => ?_) fun i r tells => ?_
  · rw [free] at own
    cases own
  · rw [tells.own] at free
    cases free

/-! ## Launches -/

theorem lt_of_loader? (loader : w.loader? i = some who) : i < w.supervisor.tasks.length :=
  State.lt_of_keyOf (World.loader?_eq_some_iff.mp loader).2.1

theorem Recorded.unknown (h : Recorded source acting w log) (new : w.bodies.length ≤ i) :
    deedsOf i log = [] := by
  refine deedsOf_eq_nil fun who d hline => ?_
  rintro rfl
  have hlt := lt_of_loader? (h.known who d hline)
  rw [← h.bodies] at hlt
  omega

theorem Recorded.deedsOf_eq_nil (h : Recorded source acting w log) (none : w.loader? i = none) :
    deedsOf i log = [] := by
  refine Resource.deedsOf_eq_nil fun who d hline => ?_
  rintro rfl
  rw [h.known who d hline] at none
  cases none

theorem abreast_of_ended (ended : w.supervisor.stageOf i = some .ended)
    (complete : Complete (deedsOf i log)) : Abreast w log i where
  fresh new := absurd (.inr ended) new
  running who _ running := by
    rw [ended] at running
    cases running
  complete := complete

def extended (w : World) (key : Value) (body : Body) : World :=
  stepped { w with bodies := w.bodies ++ [body] } (.launch key)

theorem loader?_extended (bodies : w.bodies.length = w.supervisor.tasks.length) (key : Value)
    (body : Body) (old : i < w.bodies.length) :
    (extended w key body).loader? i = w.loader? i := by
  refine loader?_congr ?_ (List.getElem?_append_left old)
  rw [State.keyOf_eq, State.keyOf_eq, extended, stepped, State.taskKeys_step]
  refine List.getElem?_append_left ?_
  rwa [State.taskKeys, List.length_map, ← bodies]

theorem stageOf_extended (key : Value) (body : Body) (old : i < w.supervisor.tasks.length) :
    (extended w key body).supervisor.stageOf i = w.supervisor.stageOf i :=
  (State.stageOf_launch w.supervisor key i).trans (if_neg (Nat.ne_of_lt old))

theorem Kept.extended (kept : Kept source turn acting w log) (key : Value) (body : Body)
    (known : ∀ load, body.load = some load → load.1 < w.cells.length) :
    Kept source turn acting (extended w key body) log := by
  have hbodies := kept.bodies
  have hlength : w.bodies.length + 1 = (Scenario.extended w key body).bodies.length := by
    simp [Scenario.extended, Scenario.stepped]
  have htasks : w.supervisor.tasks.length + 1 =
      (Scenario.extended w key body).supervisor.tasks.length := by
    have hkeys := congrArg List.length (State.taskKeys_launch w.supervisor key)
    simp only [State.taskKeys, List.length_map, List.length_append, List.length_singleton] at hkeys
    exact hkeys.symm
  have hloader {i : Nat} (old : i < w.bodies.length) :
      (Scenario.extended w key body).loader? i = w.loader? i :=
    loader?_extended hbodies key body old
  constructor
  · refine kept.toStaffed.quiet (v := Scenario.extended w key body) (.refl kept.ordered)
      (by omega) fun i b _ serves => ?_
    have hold := State.lt_of_stageOf serves.stage
    refine serves.congr (stageOf_extended key body hold) (List.getElem?_append_left ?_)
    rwa [hbodies]
  · constructor
    · exact (State.name_step _ (.launch key)).trans kept.name
    · exact kept.chained.step (.launch key)
    · omega
    · exact kept.named
    · intro i who loader
      by_cases hold : i < w.bodies.length
      · exact kept.loads i who ((hloader hold).symm.trans loader)
      · have hlt := lt_of_loader? loader
        obtain rfl : i = w.bodies.length := by omega
        obtain ⟨_, _, hload⟩ := World.loader?_eq_some_iff.mp loader
        refine known (who.cell, who.load) ?_
        simpa [Scenario.extended, Scenario.stepped] using hload
    · exact kept.legal
    · intro who d hline
      have hknown := kept.known who d hline
      rw [hloader]
      · exact hknown
      · exact (lt_of_loader? hknown).trans_eq hbodies.symm
    · exact kept.writes
    · exact kept.reports
    · intro i idle
      by_cases hold : i < w.bodies.length
      · obtain ⟨hfresh, hrunning, hcomplete⟩ := kept.abreast i idle
        have hstage := stageOf_extended (w := w) key body (hbodies ▸ hold)
        constructor
        · rw [State.Started, hstage]
          exact hfresh
        · rw [hstage, hloader hold]
          exact hrunning
        · exact hcomplete
      · have hnone := kept.unknown (Nat.le_of_not_lt hold)
        refine ⟨fun _ => hnone, fun who loader running => ?_, ?_⟩
        · have hwaiting := (State.stageOf_launch w.supervisor key i).symm.trans running
          split at hwaiting
          · cases hwaiting
          · have hlt := State.lt_of_stageOf hwaiting
            omega
        · rw [hnone]
          exact .nil
    · refine fun i r hmem => (kept.results i r hmem).later (by omega) hloader fun ended => ?_
      exact ⟨State.stageOf_step_ended ended (.launch key), rfl⟩

theorem Recorded.withExecutor (h : Recorded source acting w log) (x : Executor Signal Task) :
    Recorded source acting { w with executor := x } log :=
  ⟨h.name, h.chained, h.bodies, h.named, h.loads, h.legal, h.known, h.writes, h.reports,
    fun i idle => (h.abreast i idle).congr rfl rfl, fun i r mem =>
      (h.results i r mem).later (Nat.le_refl _) (fun _ => rfl) fun ended => ⟨ended, rfl⟩⟩

theorem Kept.spawned (kept : Kept source turn acting w log) (idle : acting ≠ some i)
    (serves : Serves w i none)
    (alone : ∀ id b, turn ≠ some id → w.executor.task? id ≠ some (.program (.supervised i b))) :
    Kept source turn acting (spawn w (.program (.supervised i none))) log := by
  -- A task of the executor is the new one or was there before, and `i` had none.
  have hserves (j : Nat) (b : Option Body) (h : Serves w j b) :
      Serves (spawn w (.program (.supervised i none))) j b := h.congr rfl rfl
  have htask (id : TaskId) (j : Nat) (b : Option Body) (task :
      (w.executor.spawn (.program (.supervised i none))).task? id =
        some (.program (.supervised j b))) :
      id = w.executor.nextTask ∧ j = i ∧ b = none ∨
        w.executor.task? id = some (.program (.supervised j b)) := by
    by_cases hid : id = w.executor.nextTask
    · rw [hid, Executor.task?_spawn kept.ordered.toNumbered] at task
      cases task
      exact .inl ⟨hid, rfl, rfl⟩
    · rw [Executor.task?_spawn_ne _ hid] at task
      exact .inr task
  constructor
  · refine ⟨kept.ordered.spawn _, kept.launched, fun id j b other task => ?_,
      fun id k j b b' hid hk task task' => ?_⟩
    · rcases htask id j b task with ⟨_, rfl, rfl⟩ | hold
      · exact ⟨idle, hserves j none serves⟩
      · obtain ⟨hidle, hold⟩ := kept.crew id j b other hold
        exact ⟨hidle, hserves j b hold⟩
    · rcases htask id j b task with ⟨rfl, rfl, rfl⟩ | hold
      · rcases htask k j b' task' with ⟨rfl, _⟩ | hold'
        · rfl
        · exact absurd hold' (alone k b' hk)
      · rcases htask k j b' task' with ⟨rfl, rfl, rfl⟩ | hold'
        · exact absurd hold (alone id b hid)
        · exact kept.unique id k j b b' hid hk hold hold'
  · exact kept.toRecorded.withExecutor _

theorem Kept.launch (kept : Kept source turn acting w log) (key : Value) (body : Body)
    (known : ∀ load, body.load = some load → load.1 < w.cells.length) :
    Kept source turn acting
      (Hosting.input { w with bodies := w.bodies ++ [body] } (.launch key)) log := by
  have hextended := kept.extended key body known
  obtain ⟨calm, heffects, hcalm⟩ := State.launch_effects w.supervisor key
  obtain ⟨news, haside, hnews⟩ := Aside.performAll (P := fun _ _ => False)
    (w := Scenario.extended w key body) kept.ordered (.of_calm hcalm)
  have hbeside := hextended.beside haside fun i r hmem => (hnews i r hmem).elim
  have hinput : Hosting.input { w with bodies := w.bodies ++ [body] } (.launch key) =
      spawn (calm.foldl Hosting.perform (Scenario.extended w key body))
        (.program (.supervised w.supervisor.tasks.length none)) := by
    change (w.supervisor.launch key).2.foldl Hosting.perform (Scenario.extended w key body) = _
    rw [heffects, List.foldl_append]
    rfl
  rw [hinput]
  apply hbeside.spawned
  · intro act
    have := kept.launched _ act
    rw [kept.bodies] at this
    omega
  · constructor
    · rw [haside.supervisor]
      exact (State.stageOf_launch w.supervisor key _).trans (if_pos rfl)
    · exact nofun
  · intro id b other task
    obtain ⟨_, hserves⟩ := kept.crew id _ b other (haside.executor.supervised task)
    exact Nat.lt_irrefl _ (State.lt_of_stageOf hserves.stage)

theorem loader?_launch (bodies : w.bodies.length = w.supervisor.tasks.length) (key : Value)
    (body : Body) (old : i < w.bodies.length) :
    (Hosting.input { w with bodies := w.bodies ++ [body] } (.launch key)).loader? i =
      w.loader? i := by
  rw [← loader?_extended bodies key body old]
  exact loader?_congr (by rw [supervisor_input]; rfl) (by rw [bodies_input]; rfl)

theorem launch_cases (kept : Kept source turn acting w log) (key : Value) (name : String)
    (rest : List Item) (resource : Option String) (policy : Option (Option Value × Bool)) :
    (w.launch key name rest resource policy).1 = w ∨
      ∃ v body, Aside turn w [] [] v ∧
        (∀ load, body.load = some load → load.1 < v.cells.length) ∧
        (w.launch key name rest resource policy).1 =
          Hosting.input { v with bodies := v.bodies ++ [body] } (.launch key) := by
  unfold World.launch
  by_cases hopen : (w.owned && (resource.isNone || w.managed)) = true
  · rw [if_pos hopen]
    cases resource with
    | none => exact .inr ⟨w, { name, rest }, .refl kept.ordered, nofun, rfl⟩
    | some r =>
        have hnamed := cellNamed_lt kept.named r
        have haside := Aside.cellNamed kept.ordered r
        refine .inr ⟨(w.cellNamed r).2, _, haside, fun load hload => ?_, rfl⟩
        cases hload
        exact hnamed
  · rw [if_neg hopen]
    exact .inl rfl

theorem Kept.launches (kept : Kept source turn acting w log) (key : Value) (name : String)
    (rest : List Item) (resource : Option String) (policy : Option (Option Value × Bool)) :
    Kept source turn acting (w.launch key name rest resource policy).1 log := by
  rcases launch_cases kept key name rest resource policy with heq | ⟨v, body, aside, known, heq⟩
  · rwa [heq]
  · rw [heq]
    exact (kept.silent aside).launch key body known

/-! ## Turns -/

theorem Kept.called (kept : Kept source none acting w log) (queued : id ∈ w.executor.ready) :
    Kept source (some id) acting (update w (·.call id)) log where
  ordered := kept.ordered.call queued
  launched := kept.launched
  crew k i b _ task := by
    obtain ⟨hidle, hserves⟩ := kept.crew k i b nofun task
    exact ⟨hidle, hserves.congr rfl rfl⟩
  unique k j i b b' _ _ := kept.unique k j i b b' nofun nofun
  toRecorded := kept.toRecorded.withExecutor _

theorem Kept.acts (kept : Kept source turn none w log) (launched : i < w.bodies.length)
    (alone : ∀ id b, turn ≠ some id → w.executor.task? id ≠ some (.program (.supervised i b))) :
    Kept source turn (some i) w log where
  ordered := kept.ordered
  launched j act := by
    cases act
    exact launched
  crew id j b other task := by
    refine ⟨?_, (kept.crew id j b other task).2⟩
    rintro ⟨⟩
    exact alone id b other task
  unique := kept.unique
  name := kept.name
  chained := kept.chained
  bodies := kept.bodies
  named := kept.named
  loads := kept.loads
  legal := kept.legal
  known := kept.known
  writes := kept.writes
  reports := kept.reports
  abreast j _ := kept.abreast_all j
  results := kept.results

theorem Kept.acted (kept : Kept source turn acting w log)
    (abreast : ∀ i, acting = some i → Abreast w log i) : Kept source turn none w log where
  ordered := kept.ordered
  launched := nofun
  crew id j b other task := ⟨nofun, (kept.crew id j b other task).2⟩
  unique := kept.unique
  name := kept.name
  chained := kept.chained
  bodies := kept.bodies
  named := kept.named
  loads := kept.loads
  legal := kept.legal
  known := kept.known
  writes := kept.writes
  reports := kept.reports
  abreast j _ := by
    by_cases hact : acting = some j
    · exact abreast j hact
    · exact kept.abreast j hact
  results := kept.results

theorem leave_eq (w : World) (id : TaskId) (rest : Rest Signal Task) :
    Hosted.leave w id rest = { w with executor := w.executor.left id rest } := by
  cases rest <;> rfl

theorem Kept.left (kept : Kept source (some id) acting w log) (rest : Rest Signal Task)
    (abreast : ∀ i, acting = some i → Abreast w log i)
    (serves : ∀ i b, rest.program? = some (.program (.supervised i b)) →
      acting = some i ∧ Serves w i b) : Kept source none none (Hosted.leave w id rest) log := by
  have htask (k : TaskId) (i : Nat) (b : Option Body)
      (task : (w.executor.left id rest).task? k = some (.program (.supervised i b))) :
      k = id ∧ acting = some i ∧ Serves w i b ∨
        k ≠ id ∧ w.executor.task? k = some (.program (.supervised i b)) := by
    by_cases hk : k = id
    · subst hk
      exact .inl ⟨rfl, serves i b (Executor.program?_of_left task)⟩
    · have hother : some id ≠ some k := fun heq => hk (Option.some.inj heq).symm
      have hkeeps := Executor.keeps_left kept.ordered.turn rest
      exact .inr ⟨hk, (hkeeps.task k hother).symm.trans task⟩
  have hacts {k : TaskId} {i : Nat} {b : Option Body} (other : k ≠ id)
      (task : w.executor.task? k = some (.program (.supervised i b))) :
      acting ≠ some i ∧ Serves w i b :=
    kept.crew k i b (fun heq => other (Option.some.inj heq).symm) task
  rw [leave_eq]
  constructor
  · refine ⟨kept.ordered.left rest, nofun, fun k i b _ task => ⟨nofun, ?_⟩,
      fun k j i b b' _ _ task task' => ?_⟩
    · rcases htask k i b task with ⟨_, _, hserves⟩ | ⟨hk, hold⟩
      · exact hserves.congr rfl rfl
      · exact (hacts hk hold).2.congr rfl rfl
    · rcases htask k i b task with ⟨rfl, hact, _⟩ | ⟨hk, hold⟩
      · rcases htask j i b' task' with ⟨rfl, _⟩ | ⟨hj, hold'⟩
        · rfl
        · exact absurd hact (hacts hj hold').1
      · rcases htask j i b' task' with ⟨rfl, hact, _⟩ | ⟨hj, hold'⟩
        · exact absurd hact (hacts hk hold).1
        · exact kept.unique k j i b b' (fun heq => hk (Option.some.inj heq).symm)
            (fun heq => hj (Option.some.inj heq).symm) hold hold'
  · exact (kept.acted abreast).toRecorded.withExecutor _

theorem Kept.left_ended (kept : Kept source (some id) acting w log)
    (abreast : ∀ i, acting = some i → Abreast w log i) :
    Kept source none none (Hosted.leave w id .ended) log := by
  refine kept.left .ended abreast ?_
  rintro _ _ ⟨⟩

end Lifecycle.Supervisor.Scenario
