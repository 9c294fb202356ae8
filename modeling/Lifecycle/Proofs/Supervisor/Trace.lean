import Lifecycle.Proofs.Bus
import Lifecycle.Proofs.Resource.Protocol
import Lifecycle.Proofs.Supervisor.Events
import Lifecycle.Proofs.Supervisor.Turns

/-!
# Runs as the supervisor sees them

Whatever users and tasks do, the supervisor is given inputs, and what it publishes is what is on
the bus, what it resolves is what launchers learn, and the bodies that it calls are called.  So what
holds of all runs of a supervisor holds of all runs of its tasks.
-/

namespace Lifecycle.Supervisor

def Effect.called? : Effect → Option Nat
  | callBody i => some i
  | _ => none

namespace State

variable {s : State} {given : Input} {i : Nat}

def calls (effects : List Effect) : List Nat := effects.filterMap Effect.called?

def resolved (effects : List Effect) : List (Nat × Result) := effects.filterMap Effect.resolved?

@[simp] theorem calls_append (effects more : List Effect) :
    calls (effects ++ more) = calls effects ++ calls more :=
  List.filterMap_append

@[simp] theorem resolved_append (effects more : List Effect) :
    resolved (effects ++ more) = resolved effects ++ resolved more :=
  List.filterMap_append

@[simp] theorem calls_nil : calls [] = [] := rfl

@[simp] theorem calls_cons (e : Effect) (rest : List Effect) :
    calls (e :: rest) = e.called?.toList ++ calls rest := by
  cases e <;> rfl

theorem mem_calls_iff {effects : List Effect} : i ∈ calls effects ↔ .callBody i ∈ effects := by
  rw [calls, List.mem_filterMap]
  constructor
  · rintro ⟨e, he, heq⟩
    cases e <;> cases heq
    exact he
  · exact fun h => ⟨_, h, rfl⟩

theorem mem_resolved_iff {effects : List Effect} {r : Result} :
    (i, r) ∈ resolved effects ↔ .resolve i r ∈ effects := by
  rw [resolved, List.mem_filterMap]
  constructor
  · rintro ⟨e, he, heq⟩
    cases e <;> cases heq
    exact he
  · exact fun h => ⟨_, h, rfl⟩

@[simp] theorem calls_cancelTask (s : State) (i : Nat) : calls (s.cancelTask i).2 = [] := by
  unfold cancelTask
  split <;> rfl

theorem calls_close (s : State) : calls s.close.2 = [] :=
  close_induct (P := fun _ effects => calls effects = []) rfl fun t effects j h => by
    rw [calls_append, h, calls_cancelTask]
    rfl

theorem calls_step (s : State) (given : Input) :
    calls (s.step given).2 = [] ∨ ∃ i, given = .begin i ∧ s.isCancelled i = false ∧
      calls (s.step given).2 = [i] := by
  cases given with
  | launch key =>
      rw [step, launch_tells]
      cases s.owner? key <;> simp [Effect.called?]
  | cancel key =>
      rw [step, cancel]
      cases s.owner? key <;> simp [Effect.called?]
  | close => exact .inl s.calls_close
  | begin i =>
      simp only [step, begin]
      repeat' split
      · exact .inl rfl
      · exact .inl rfl
      · rename_i task found _ hspared
        exact .inr ⟨i, rfl, by simpa [isCancelled, found] using hspared, rfl⟩
      · exact .inl rfl
  | finish | abort | panic | release =>
      left
      simp only [step, finish, verdict, abort, panic, release]
      repeat' split
      all_goals rfl

theorem begin_calls (waiting : s.stageOf i = some .waiting) (free : s.awaits i = none)
    (spared : s.isCancelled i = false) :
    ∃ e, (s.step (.begin i)).2 = [.publish e, .callBody i] := by
  obtain ⟨task, htask, hstage⟩ := Option.map_eq_some_iff.mp waiting
  rw [isCancelled, htask] at spared
  exact ⟨s.event .taskStarted task.key i, by simp [step, begin, htask, hstage, free, spared]⟩

end State

namespace Scenario

open HasExecutor
open State (published)

variable {turn : Option TaskId} {u v w : World} {id : TaskId} {i : Nat} {t : Task} {given : Input}
  {inputs more : List Input} {effects : List Effect}

/-! ## Acts -/

def Sound (w : World) : Prop := ∃ source log, Kept source none none w log

theorem sound_fresh (s : Setup) : Sound s.world := ⟨_, _, kept_fresh s⟩

theorem Sound.serves (h : Sound w) {b : Option Body}
    (task : w.executor.task? id = some (.program (.supervised i b))) : Serves w i b := by
  obtain ⟨source, log, kept⟩ := h
  exact (kept.crew id i b nofun task).2

theorem Sound.perform (h : Sound w) {a : Act} (admitted : w.admits a = true) :
    Sound (w.perform a) := by
  obtain ⟨source, log, kept⟩ := h
  exact ⟨source, _, kept.perform admitted⟩

theorem Sound.chained (h : Sound w) : w.supervisor.Chained := by
  obtain ⟨source, log, kept⟩ := h
  exact kept.chained

theorem Sound.ended (h : Sound w) {r : Result} (known : (i, r) ∈ w.results) (whole : r ≠ .aborted) :
    w.supervisor.stageOf i = some .ended := by
  obtain ⟨source, log, kept⟩ := h
  exact (kept.results i r known).ended whole

theorem after_keeps {P : World → Prop}
    (turn : ∀ u v, Sound u → u.executor.Listed none → P u → Episode u v → P v)
    (between : ∀ u v, P u → Leads none u v → P v) {acts : List Act} (sound : Sound w)
    (ordered : w.executor.Listed none) (orderly : w.orderly acts = true) (start : P w) :
    P (w.after acts) := by
  induction acts generalizing w with
  | nil => exact start
  | cons a rest ih =>
      rw [World.orderly_cons] at orderly
      obtain ⟨u, hepisode, hleads⟩ := perform_episode ordered orderly.1
      exact ih (sound.perform orderly.1) hleads.ordered orderly.2
        (between u _ (turn w u sound ordered start hepisode) hleads)

theorem sound_after {acts : List Act} (sound : Sound w) (orderly : w.orderly acts = true) :
    Sound (w.after acts) := by
  induction acts generalizing w with
  | nil => exact sound
  | cons a rest ih =>
      rw [World.orderly_cons] at orderly
      exact ih (sound.perform orderly.1) orderly.2

theorem listed_after {acts : List Act} (sound : Sound w) (ordered : w.executor.Listed none)
    (orderly : w.orderly acts = true) : (w.after acts).executor.Listed none :=
  after_keeps (P := fun v => v.executor.Listed none)
    (fun _ _ _ ordered _ episode => episode.ordered ordered) (fun _ _ _ leads => leads.ordered)
    sound ordered orderly ordered

theorem after_append (w : World) (acts later : List Act) :
    w.after (acts ++ later) = (w.after acts).after later :=
  List.foldl_append

theorem orderly_append (w : World) (acts later : List Act) :
    w.orderly (acts ++ later) = true ↔
      w.orderly acts = true ∧ (w.after acts).orderly later = true := by
  induction acts generalizing w with
  | nil => simp [World.orderly, World.after]
  | cons a rest ih =>
      rw [List.cons_append, World.orderly_cons, World.orderly_cons, ih, and_assoc]
      rfl

/-! ## What becomes known -/

structure Shown (w : World) (effects : List Effect) (v : World) : Prop where
  bus : v.bus = w.bus.map fun bus => (published effects).foldl Bus.publish bus
  results : v.results = w.results ++ State.resolved effects
  starts : ∃ names, v.starts = w.starts ++ names ∧ names.length = (State.calls effects).length

theorem Shown.none (bus : v.bus = w.bus) (results : v.results = w.results)
    (starts : v.starts = w.starts) : Shown w [] v where
  bus := by simp [bus]
  results := by rw [results]; exact (List.append_nil _).symm
  starts := ⟨[], by rw [starts, List.append_nil], rfl⟩

theorem Shown.trans {after : List Effect} (h₁ : Shown w effects v) (h₂ : Shown v after u) :
    Shown w (effects ++ after) u where
  bus := by
    rw [h₂.bus, h₁.bus, Option.map_map, State.published_append]
    congr 1
    funext bus
    exact List.foldl_append.symm
  results := by rw [h₂.results, h₁.results, State.resolved_append, List.append_assoc]
  starts := by
    obtain ⟨first, hfirst, hcalls⟩ := h₁.starts
    obtain ⟨later, hlater, hmore⟩ := h₂.starts
    refine ⟨first ++ later, by rw [hlater, hfirst, List.append_assoc], ?_⟩
    rw [List.length_append, hcalls, hmore, State.calls_append, List.length_append]

theorem shown_perform (w : World) {e : Effect} (silent : e.called? = .none) :
    Shown w [e] (Hosting.perform w e) := by
  have hbus : w.bus = w.bus.map fun bus => bus := by simp
  cases e with
  | publish e => exact ⟨rfl, (List.append_nil _).symm, [], (List.append_nil _).symm, rfl⟩
  | resolve i r => exact ⟨hbus, rfl, [], (List.append_nil _).symm, rfl⟩
  | callBody i => cases silent
  | signal | start | startRelease =>
      exact ⟨hbus, (List.append_nil _).symm, [], (List.append_nil _).symm, rfl⟩

theorem shown_performAll (w : World) (silent : State.calls effects = []) :
    Shown w effects (effects.foldl Hosting.perform w) := by
  induction effects generalizing w with
  | nil => exact .none rfl rfl rfl
  | cons e rest ih =>
      rw [State.calls, List.filterMap_cons] at silent
      cases hcalled : e.called? with
      | some i => simp [hcalled] at silent
      | none =>
          simp only [hcalled] at silent
          exact (shown_perform w hcalled).trans (ih _ silent)

/-- The supervisor was given the inputs, and their effects have become known. -/
structure Traced (w : World) (inputs : List Input) (v : World) : Prop
    extends Shown w (w.supervisor.run inputs).2 v where
  supervisor : v.supervisor = (w.supervisor.run inputs).1

namespace Traced

theorem none (supervisor : v.supervisor = w.supervisor) (bus : v.bus = w.bus)
    (results : v.results = w.results) (starts : v.starts = w.starts) : Traced w [] v :=
  ⟨.none bus results starts, supervisor⟩

theorem refl (w : World) : Traced w [] w := none rfl rfl rfl rfl

theorem trans (h₁ : Traced w inputs v) (h₂ : Traced v more u) : Traced w (inputs ++ more) u where
  toShown := by
    rw [State.run_append]
    refine h₁.toShown.trans ?_
    rw [← h₁.supervisor]
    exact h₂.toShown
  supervisor := by rw [h₂.supervisor, h₁.supervisor, State.run_append]

theorem beside (h : Traced w inputs u) (beside : Beside turn u v) : Traced w inputs v := by
  have hbeside : Traced u [] v :=
    none beside.supervisor beside.bus beside.results beside.starts
  simpa using h.trans hbeside

theorem input (h : Traced w inputs u) (silent : State.calls (u.supervisor.step given).2 = []) :
    Traced w (inputs ++ [given]) (Hosting.input u given) := by
  refine h.trans ⟨?_, ?_⟩
  · have hshown := shown_performAll { u with supervisor := (u.supervisor.step given).1 } silent
    simp only [State.run, List.append_nil]
    exact ⟨hshown.bus, hshown.results, hshown.starts⟩
  · simp [State.run]

end Traced

theorem Traced.silent (h : Traced w inputs u)
    (skips : ∀ i, given = .begin i → u.supervisor.isCancelled i = true) :
    ∃ inputs, Traced w inputs (Hosting.input u given) := by
  refine ⟨_, h.input ?_⟩
  rcases State.calls_step u.supervisor given with hsilent | ⟨i, hbegin, hspared, _⟩
  · exact hsilent
  · rw [skips i hbegin] at hspared
    cases hspared

theorem Leads.traced (leads : Leads turn w v) : ∃ inputs, Traced w inputs v := by
  induction leads with
  | start => exact ⟨[], .refl w⟩
  | beside _ beside ih =>
      obtain ⟨inputs, h⟩ := ih
      exact ⟨inputs, h.beside beside⟩
  | request _ free ih =>
      obtain ⟨inputs, h⟩ := ih
      refine h.silent ?_
      rintro i rfl
      cases free

theorem Runs.traced {r : World × Rest Signal Task} (runs : Runs turn w i r) :
    ∃ inputs, Traced w inputs r.1 := by
  cases runs with
  | pauses leads => exact leads.traced
  | returns leads | panics leads =>
      obtain ⟨inputs, h⟩ := leads.traced
      dsimp only
      exact h.silent fun _ => nofun

theorem traced_called (ordered : w.executor.Listed turn)
    (waiting : w.supervisor.stageOf i = some .waiting) (free : w.supervisor.awaits i = none)
    (spared : w.supervisor.isCancelled i = false) :
    Traced w [.begin i] (callBody (Hosting.input w (.begin i)) i).1 := by
  obtain ⟨e, heffects⟩ := State.begin_calls waiting free spared
  obtain ⟨u, name, hcall, hbeside⟩ := callBody_noted (input_ordered ordered (.begin i)) i
  have hinput : Hosting.input w (.begin i) = Hosting.perform
      { w with supervisor := (w.supervisor.step (.begin i)).1 } (.publish e) := by
    change (w.supervisor.step (.begin i)).2.foldl Hosting.perform
      { w with supervisor := (w.supervisor.step (.begin i)).1 } = _
    rw [heffects]
    rfl
  rw [hcall]
  rw [hinput] at hbeside
  have heffects' : (w.supervisor.run [.begin i]).2 = [.publish e, .callBody i] := by
    simp [State.run, heffects]
  refine ⟨⟨?_, ?_, [name], ?_, ?_⟩, ?_⟩
  · rw [heffects']
    exact hbeside.bus
  · rw [heffects']
    exact hbeside.results.trans (List.append_nil _).symm
  · have hstarts : (u.note name .start).starts = u.starts ++ [name] := by
      simp [World.starts, World.note, Note.isStart]
    rw [hstarts, hbeside.starts]
    rfl
  · rw [heffects']
    rfl
  · exact hbeside.supervisor

theorem Acts.traced {r : World × Rest Signal Task} (acts : Acts id w t r)
    (ordered : w.executor.Listed (some id))
    (waiting : ∀ i, t = .program (.supervised i none) → w.supervisor.stageOf i = some .waiting) :
    ∃ inputs, Traced w inputs r.1 := by
  cases acts with
  | waits => exact ⟨[], .refl w⟩
  | skips free cancelled =>
      dsimp only
      refine (Traced.refl w).silent ?_
      rintro _ ⟨⟩
      exact cancelled
  | @begins i r free spared runs =>
      obtain ⟨inputs, h⟩ := runs.traced
      exact ⟨_, (traced_called ordered (waiting i rfl) free spared).trans h⟩
  | resumes runs => exact runs.traced
  | releases free =>
      dsimp only
      exact (Traced.refl w).silent fun _ => nofun
  | stands _ leads => exact leads.traced

theorem Traced.within (x y : Executor Signal Task) (h : Traced { w with executor := x } inputs v) :
    Traced w inputs { v with executor := y } :=
  ⟨⟨h.bus, h.results, h.starts⟩, h.supervisor⟩

theorem Episode.traced (episode : Episode w v) (sound : Sound w)
    (ordered : w.executor.Listed none) : ∃ inputs, Traced w inputs v := by
  cases episode with
  | between leads => exact leads.traced
  | @turn id t r queued task spared acts =>
      have hwaiting (i : Nat) (heq : t = .program (.supervised i none)) :
          w.supervisor.stageOf i = some .waiting := by
        subst heq
        exact (sound.serves task).stage
      obtain ⟨inputs, h⟩ := acts.traced (ordered.call queued) hwaiting
      rw [leave_eq]
      exact ⟨inputs, h.within _ _⟩
  | @dropped id t queued task doomed =>
      obtain ⟨inputs, h⟩ : ∃ inputs, Traced (update w (·.call id)) inputs
          (Hosted.discard (update w (·.call id)) id t) := by
        rcases discard_cases (update w (·.call id)) id t with ⟨i, b, _, heq⟩ | ⟨_, heq⟩
        · rw [heq]
          exact (Traced.refl _).silent fun _ => nofun
        · exact ⟨[], by rw [heq]; exact .refl _⟩
      exact ⟨inputs, h.within _ _⟩

theorem traced_after {acts : List Act} (sound : Sound w) (ordered : w.executor.Listed none)
    (orderly : w.orderly acts = true) : ∃ inputs, Traced w inputs (w.after acts) := by
  refine after_keeps (P := fun v => ∃ inputs, Traced w inputs v)
    (fun u v sound ordered h episode => ?_) (fun u v h leads => ?_) sound ordered orderly
    ⟨[], .refl w⟩
  · obtain ⟨inputs, h⟩ := h
    obtain ⟨more, hmore⟩ := episode.traced sound ordered
    exact ⟨_, h.trans hmore⟩
  · obtain ⟨inputs, h⟩ := h
    obtain ⟨more, hmore⟩ := leads.traced
    exact ⟨_, h.trans hmore⟩

/-! ## The events on the bus -/

def World.events (w : World) : List Event := w.bus.elim [] fun bus => bus.published.toList

def numbered (events : List Event) : List Event :=
  events.mapIdx fun n e => { e with seq := n + 1 }

/-- What is on the bus, what launchers learn and which bodies are called is told by the effects of
the inputs that the supervisor was given, and these agree with each other. -/
theorem events_agree_with_execution (setup : Setup) (acts : List Act)
    (audible : setup.hasBus = true) (orderly : setup.world.orderly acts = true) :
    ∃ inputs, Traced setup.world inputs (setup.world.after acts) ∧
      (setup.world.after acts).events =
        numbered (published (State.run { name := setup.name } inputs).2) ∧
      State.Agrees setup.name inputs (State.run { name := setup.name } inputs).1
        (State.run { name := setup.name } inputs).2 := by
  obtain ⟨inputs, traced⟩ := traced_after (sound_fresh setup) (listed_fresh setup) orderly
  refine ⟨inputs, traced, ?_, State.agrees_run setup.name inputs⟩
  have hbus : setup.world.bus = some (Bus.ofCapacity 65536) := by simp [Setup.world, audible]
  rw [World.events, traced.bus, hbus, Option.map_some, Option.elim_some, Bus.published_foldl]
  simp [numbered, Bus.ofCapacity, Bus.count]
  rfl

/-- The first body is replaced while it waits and sees that it was cancelled. -/
def replacing : List Act :=
  [.step (.launch (.number 7) "first" [.pause (.hold "gate")] none none), .turn 0,
    .step (.launch (.number 7) "second" [] none none), .turn 1, .step (.release "gate"), .turn 0,
    .turn 1]

theorem events_of_replaced_task :
    let setup : Setup := { managed := false }
    setup.hasBus = true ∧ setup.world.orderly replacing = true ∧
      (setup.world.after replacing).events.map (fun e => (e.kind, e.taskId)) =
        [(.taskLaunched, some 1), (.taskStarted, some 1), (.taskCancelRequested, some 1),
          (.taskLaunched, some 2), (.taskCancelled, some 1), (.taskStarted, some 2),
          (.taskFinished, some 2)] ∧
      ∃ inputs, Traced setup.world inputs (setup.world.after replacing) ∧
        (setup.world.after replacing).events =
          numbered (published (State.run { name := setup.name } inputs).2) ∧
        State.Agrees setup.name inputs (State.run { name := setup.name } inputs).1
          (State.run { name := setup.name } inputs).2 := by
  intro setup
  have horderly : setup.world.orderly replacing = true := by decide +kernel
  exact ⟨rfl, horderly, by decide +kernel,
    events_agree_with_execution setup replacing rfl horderly⟩

end Scenario

end Lifecycle.Supervisor
