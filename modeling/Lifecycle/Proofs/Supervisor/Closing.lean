import Lifecycle.Proofs.Supervisor.Attendance

/-!
# No body begins once the context has ended

When the parent's context has ended or the last handle of a supervisor is gone, all its tasks have
been asked to give up, and so is each one that is launched later.  A task that has not begun by then
has its turn nevertheless, after the tasks before it, and skips its body; it releases its key and
makes its end known like any other.  A body that runs goes on until it returns.
-/

namespace Lifecycle.Supervisor

namespace State

variable {s : State} {given : Input} {inputs : List Input} {i : Nat} {r : Result}

def Ends (i : Nat) : Input → Prop
  | .finish j _ | .panic j _ | .abort j => j = i
  | .launch _ | .cancel _ | .close | .begin _ | .release _ => False

theorem close_fires (s : State) :
    Alike s (s.step .close).1 ∧ ∀ e ∈ (s.step .close).2, ∃ i, e = .signal (.cancelled i) := by
  refine close_induct
    (P := fun t effects => Alike s t ∧ ∀ e ∈ effects, ∃ i, e = .signal (.cancelled i))
    ⟨⟨rfl, fun _ => rfl, fun _ => rfl, fun _ => rfl⟩, fun _ => nofun⟩ fun t effects i h => ?_
  refine ⟨h.1.trans (cancelTask_alike t i), fun e he => ?_⟩
  rcases List.mem_append.mp he with hold | hnew
  · exact h.2 e hold
  · unfold cancelTask at hnew
    split at hnew
    · cases hnew
    · exact ⟨i, List.mem_singleton.mp hnew⟩

theorem running_step (running : s.stageOf i = some .running) (given : Input) :
    (s.step given).1.stageOf i = some .running ∨ Ends i given := by
  have hother (other : given.task? ≠ some i) : (s.step given).1.stageOf i = some .running :=
    (stageOf_step other (lt_of_stageOf running)).trans running
  cases given with
  | launch | cancel | close => exact .inl (hother nofun)
  | finish j | panic j | abort j =>
      by_cases hj : j = i
      · exact .inr hj
      · exact .inl (hother fun heq => hj (Option.some.inj heq))
  | begin j =>
      left
      by_cases hj : j = i
      · obtain ⟨task, htask, hstage⟩ := Option.map_eq_some_iff.mp running
        subst hj
        simpa [step, begin, htask, hstage] using running
      · exact hother fun heq => hj (Option.some.inj heq)
  | release j =>
      left
      by_cases hj : j = i
      · subst hj
        rwa [step_release_of_ne (by simp [running])]
      · exact hother fun heq => hj (Option.some.inj heq)

theorem Started.run (h : s.Started i) (inputs : List Input) : (s.run inputs).1.Started i := by
  induction inputs generalizing s with
  | nil => exact h
  | cons given rest ih => exact ih (h.step given)

theorem Chained.resolved (h : Chained s) (told : .resolve i r ∈ (s.step given).2) :
    s.stageOf i = some .waiting ∧ r = .returned (.ok .skipped) ∨ r = .aborted ∨
      s.stageOf i = some .running ∧ r ≠ .returned (.ok .skipped) := by
  have hmem : .resolve i r ∈ about i (s.step given).2 :=
    List.mem_filter.mpr ⟨told, by simp [Effect.concerns]⟩
  by_cases hknown : i < s.tasks.length
  · have hfound := List.getElem?_eq_getElem hknown
    obtain ⟨next, _, hchange⟩ := h.changes hfound given
    rw [stageOf_found hfound]
    generalize about i (s.step given).2 = effects, s.tasks[i].stage = stage at hchange hmem
    cases hchange with
    | none | asked | released => simp at hmem
    | started => simp at hmem
    | skipped => exact .inl ⟨rfl, by simpa using hmem⟩
    | returned r' called failure =>
        obtain rfl : r = .returned r' := by simpa using hmem
        exact .inr (.inr ⟨rfl, by simpa using called⟩)
    | panicked info =>
        obtain rfl : r = .panicked info := by simpa using hmem
        exact .inr (.inr ⟨rfl, by simp⟩)
    | aborted | orphaned => exact .inr (.inl (by simpa using hmem))
  · -- No result is told of a task that was not launched before.
    have hown := (learns_of_step told).1.own
    rw [h.about_unknown] at hmem
    · cases hmem
    · rw [tasks_length_step]
      cases given with
      | launch => cases hown
      | _ => simpa [Input.launched?] using hknown

theorem aborted_of_run (told : .resolve i .aborted ∈ (s.run inputs).2) : .abort i ∈ inputs := by
  induction inputs generalizing s with
  | nil => cases told
  | cons given rest ih =>
      rcases List.mem_append.mp told with hfirst | hlater
      · cases (learns_of_step hfirst).1
        exact List.mem_cons_self
      · exact List.mem_cons_of_mem _ (ih hlater)

theorem Chained.clear_of_skipped (h : Chained s)
    (told : .resolve i (.returned (.ok .skipped)) ∈ (s.step given).2) : s.Clear i := by
  have hmem : .resolve i (.returned (.ok .skipped)) ∈ (s.step given).2.filter Effect.isNews :=
    List.mem_filter.mpr ⟨told, rfl⟩
  have hmove := step_move s given
  generalize (s.step given).2.filter Effect.isNews = news at hmem hmove
  generalize (s.step given).1 = t at hmove
  cases hmove with
  | rest | launch => cases hmem
  | call | orphan | release => simp at hmem
  | finish j r ready =>
      obtain ⟨rfl, _⟩ : i = j ∧ Result.returned (.ok .skipped) = r := by simpa using hmem
      rcases ready with ⟨_, free⟩ | running
      · exact h.clear_of_awaits free
      · exact h.cleared i (.inl running)

/-! ## Once the context has ended -/

structure Resigned (s : State) : Prop where
  chained : Chained s
  asked : Asked s
  closed : s.closed = true

theorem Resigned.step (h : Resigned s) (given : Input) : Resigned (s.step given).1 where
  chained := h.chained.step given
  asked := h.asked.step h.chained given
  closed := (closed_step s given).mpr (.inl h.closed)

theorem Resigned.run (h : Resigned s) (inputs : List Input) : Resigned (s.run inputs).1 := by
  induction inputs generalizing s with
  | nil => exact h
  | cons given rest ih => exact ih (h.step given)

theorem Resigned.uncalled (h : Resigned s) (given : Input) : calls (s.step given).2 = [] := by
  rcases calls_step s given with hsilent | ⟨i, _, hspared, hcalls⟩
  · exact hsilent
  · have hcalled : .callBody i ∈ (s.step given).2 := mem_calls_iff.mp (by simp [hcalls])
    rw [h.asked.closed h.closed i (lt_of_stageOf (called_of_step hcalled).1)] at hspared
    cases hspared

theorem Resigned.running_of_step (h : Resigned s)
    (running : (s.step given).1.stageOf i = some .running) : s.stageOf i = some .running := by
  have hmove := step_move s given
  have huncalled := h.uncalled given
  generalize hnews : (s.step given).2.filter Effect.isNews = news at hmove
  generalize (s.step given).1 = t at hmove running
  cases hmove with
  | rest same => exact (same.stageOf i).symm.trans running
  | launch key same =>
      rw [same.stageOf, stageOf_extend] at running
      split at running
      · cases running
      · exact running
  | call j waiting free =>
      have hcalled : .callBody j ∈ (s.step given).2 :=
        (List.mem_filter.mp (hnews ▸ List.mem_cons_self)).1
      rw [← mem_calls_iff, huncalled] at hcalled
      cases hcalled
  | orphan j =>
      rw [stageOf_setStage] at running
      split at running
      · cases hstage : s.stageOf i <;> simp [hstage] at running
      · exact running
  | finish j | release j =>
      rw [stageOf_endTask] at running
      split at running
      · cases hstage : s.stageOf i <;> simp [hstage] at running
      · exact running

structure Fades (s : State) (r : State × List Effect) : Prop where
  uncalled : calls r.2 = []
  running : ∀ i, r.1.stageOf i = some .running → s.stageOf i = some .running
  skipped : ∀ i result, .resolve i result ∈ r.2 → s.stageOf i ≠ some .running →
    result = .returned (.ok .skipped) ∨ result = .aborted
  returned : ∀ i result, .resolve i result ∈ r.2 → s.stageOf i = some .running →
    result ≠ .returned (.ok .skipped) ∧ result ≠ .returned (.ok .completed)

theorem Resigned.fades (h : Resigned s) (inputs : List Input) : Fades s (s.run inputs) := by
  induction inputs using List.reverseRecOn with
  | nil => exact ⟨rfl, fun _ => id, fun _ _ => nofun, fun _ _ => nofun⟩
  | append_singleton inputs given ih =>
      have hlater := h.run inputs
      have hstarted (i : Nat) (running : s.stageOf i = some .running) :=
        Started.run (.inl running) inputs
      rw [run_concat]
      generalize s.run inputs = r at *
      refine ⟨?_, fun i running => ih.running i (hlater.running_of_step running), ?_, ?_⟩
      · rw [calls_append, ih.uncalled, hlater.uncalled]
        rfl
      · intro i result told still
        rcases List.mem_append.mp told with hold | hnew
        · exact ih.skipped i result hold still
        · rcases hlater.chained.resolved hnew with ⟨_, hskipped⟩ | haborted | ⟨hrunning, _⟩
          · exact .inl hskipped
          · exact .inr haborted
          · exact absurd (ih.running i hrunning) still
      · intro i result told running
        rcases List.mem_append.mp told with hold | hnew
        · exact ih.returned i result hold running
        · have hstarted := hstarted i running
          constructor
          · rintro rfl
            rcases hlater.chained.resolved hnew with ⟨hwaiting, _⟩ | haborted | ⟨_, hcalled⟩
            · simp [Started, hwaiting] at hstarted
            · cases haborted
            · exact hcalled rfl
          · rintro rfl
            have hspared := (completed_of_step hnew).2
            rw [hlater.asked.closed hlater.closed i
              (hstarted.elim lt_of_stageOf lt_of_stageOf)] at hspared
            cases hspared

end State

namespace Scenario

open HasExecutor

variable {turn : Option TaskId} {u v w : World} {id : TaskId} {i : Nat} {t : Task}
  {effects : List Effect} {setup : Setup} {acts later : List Act}

/-! ## The last handle -/

def World.deserted (w : World) : Bool :=
  !w.owned && w.clones == 0 && !w.executor.tasks.any fun t => World.holdsSupervisor t.2

theorem deserted_congr (owned : v.owned = w.owned) (clones : v.clones = w.clones)
    (tasks : v.executor.tasks = w.executor.tasks) : v.deserted = w.deserted := by
  rw [World.deserted, World.deserted, owned, clones, tasks]

theorem deserted_signal (w : World) (s : Signal) :
    (HasExecutor.signal w s).deserted = w.deserted := by
  obtain ⟨more, hmore⟩ := w.executor.signal_eq s
  refine deserted_congr rfl rfl ?_
  change (w.executor.signal s).tasks = w.executor.tasks
  rw [hmore]

theorem deserted_performAll (w : World) (fires : ∀ e ∈ effects, ∃ i, e = .signal (.cancelled i)) :
    (effects.foldl Hosting.perform w).deserted = w.deserted := by
  induction effects generalizing w with
  | nil => rfl
  | cons e rest ih =>
      obtain ⟨i, rfl⟩ := fires e List.mem_cons_self
      rw [List.foldl_cons, ih _ fun e he => fires e (List.mem_cons_of_mem _ he)]
      exact deserted_signal w _

theorem deserted_closeSupervisor (w : World) : w.closeSupervisor.deserted = w.deserted := by
  unfold World.closeSupervisor
  split
  · rfl
  · exact deserted_performAll { w with supervisor := (w.supervisor.step .close).1 }
      w.supervisor.close_fires.2

theorem closed_closeSupervisor (deserted : w.deserted = true) :
    w.closeSupervisor.supervisor.closed = true := by
  simp only [World.deserted, Bool.and_eq_true, Bool.not_eq_true', beq_iff_eq] at deserted
  obtain ⟨⟨howned, hclones⟩, hheld⟩ := deserted
  unfold World.closeSupervisor
  split
  · rename_i hopen
    simpa [howned, hclones, hheld] using hopen
  · rw [supervisor_input]
    exact (State.closed_step _ _).mpr (.inr rfl)

theorem closed_tidy (deserted : w.tidy.deserted = true) : w.tidy.supervisor.closed = true := by
  have hcells : w.tidy.deserted = w.closeSupervisor.deserted ∧
      w.tidy.supervisor = w.closeSupervisor.supervisor := by
    refine List.foldlRecOn
      (motive := fun v : World => v.deserted = w.closeSupervisor.deserted ∧
        v.supervisor = w.closeSupervisor.supervisor) _ _ ⟨rfl, rfl⟩ fun v h c _ => ?_
    split
    · exact h
    · exact ⟨(deserted_signal _ _).trans h.1, h.2⟩
  rw [hcells.2]
  rw [hcells.1, deserted_closeSupervisor] at deserted
  exact closed_closeSupervisor deserted

theorem closed_of_deserted (ordered : w.executor.Listed none) (orderly : w.orderly acts = true)
    (start : w.deserted = true → w.supervisor.closed = true)
    (deserted : (w.after acts).deserted = true) : (w.after acts).supervisor.closed = true := by
  induction acts generalizing w with
  | nil => exact start deserted
  | cons a rest ih =>
      rw [World.orderly_cons] at orderly
      obtain ⟨u, _, hleads⟩ := perform_episode ordered orderly.1
      refine ih hleads.ordered orderly.2 ?_ deserted
      cases a with
      | step s => exact closed_tidy
      | clock target =>
          intro hdeserted
          obtain ⟨more, hmore⟩ := w.executor.moveClock_eq target
          have hsame : (w.perform (.clock target)).deserted = w.deserted := by
            refine deserted_congr rfl rfl ?_
            change (w.executor.moveClock target).tasks = w.executor.tasks
            rw [hmore]
          exact start (hsame.symm.trans hdeserted)
      | turn id =>
          have hqueued : id ∈ w.executor.ready := List.contains_iff_mem.mp orderly.1
          obtain ⟨t, htask⟩ := Option.isSome_iff_exists.mp (ordered.queued id hqueued)
          rw [World.perform]
          by_cases hdoomed : id ∈ w.executor.doomed
          · rw [Hosted.runTurn_of_doomed hqueued htask hdoomed]
            exact closed_tidy
          · rw [Hosted.runTurn_of_task hqueued htask hdoomed]
            exact closed_tidy

/-! ## The parent -/

theorem parented_input (w : World) (given : Input) :
    (Hosting.input w given).parented = w.parented := by
  refine List.foldlRecOn (motive := fun v : World => v.parented = w.parented) _ _ rfl
    fun v h e _ => ?_
  cases e <;> exact h

theorem Leads.parented (leads : Leads turn w v) : v.parented = w.parented := by
  induction leads with
  | start => rfl
  | beside _ beside ih => exact beside.parented.trans ih
  | request _ _ ih => exact (parented_input _ _).trans ih

theorem Runs.parented {r : World × Rest Signal Task} (runs : Runs turn w i r) :
    r.1.parented = w.parented := by
  cases runs with
  | pauses leads => exact leads.parented
  | returns leads | panics leads => exact (parented_input _ _).trans leads.parented

theorem Acts.parented {r : World × Rest Signal Task} (acts : Acts id w t r)
    (ordered : w.executor.Listed (some id)) : r.1.parented = w.parented := by
  cases acts with
  | waits => rfl
  | skips | releases => exact parented_input w _
  | @begins i r free spared runs =>
      obtain ⟨u, name, heq, hbeside⟩ := callBody_noted (input_ordered ordered (.begin i)) i
      rw [runs.parented, heq]
      exact hbeside.parented.trans (parented_input w _)
  | resumes runs => exact runs.parented
  | stands _ leads => exact leads.parented

theorem Episode.parented (episode : Episode w v) (ordered : w.executor.Listed none) :
    v.parented = w.parented := by
  cases episode with
  | between leads => exact leads.parented
  | turn queued task spared acts =>
      rw [leave_eq]
      exact acts.parented (ordered.call queued)
  | @dropped id t queued task doomed =>
      change (Hosted.discard (update w (·.call id)) id t).parented = w.parented
      rcases discard_cases (update w (·.call id)) id t with ⟨i, b, _, heq⟩ | ⟨_, heq⟩
      · rw [heq]
        exact parented_input _ _
      · rw [heq]
        rfl

theorem parented_after (sound : Sound w) (ordered : w.executor.Listed none)
    (orderly : w.orderly acts = true) : (w.after acts).parented = w.parented :=
  after_keeps (P := fun v => v.parented = w.parented)
    (fun _ _ _ ordered h episode => (episode.parented ordered).trans h)
    (fun _ _ h leads => leads.parented.trans h) sound ordered orderly rfl

theorem closed_after (sound : Sound w) (ordered : w.executor.Listed none)
    (orderly : w.orderly acts = true) (closed : w.supervisor.closed = true) :
    (w.after acts).supervisor.closed = true := by
  obtain ⟨inputs, traced⟩ := traced_after sound ordered orderly
  rw [traced.supervisor]
  exact (State.closed_run _ _).mpr (.inl closed)

theorem closed_of_parent (sound : Sound w) (ordered : w.executor.Listed none)
    (orderly : w.orderly acts = true) (parented : w.parented = true)
    (fired : .step .cancelParent ∈ acts) : (w.after acts).supervisor.closed = true := by
  obtain ⟨before, rest, rfl⟩ := List.append_of_mem fired
  rw [orderly_append, World.orderly_cons] at orderly
  obtain ⟨hbefore, hadmitted, hrest⟩ := orderly
  have hsound := sound_after sound hbefore
  have hordered := listed_after sound ordered hbefore
  rw [after_append]
  refine closed_after (w := (w.after before).perform (.step .cancelParent))
    (hsound.perform hadmitted) ?_ hrest ?_
  · obtain ⟨u, _, hleads⟩ := perform_episode hordered hadmitted
    exact hleads.ordered
  · have hparented := (parented_after sound ordered hbefore).trans parented
    have hfired : ((w.after before).take .cancelParent).1 =
        Hosting.input (w.after before) .close := by
      simp only [World.take, hparented, if_true]
    obtain ⟨inputs, traced⟩ :=
      (Leads.tidy (.start (input_ordered hordered .close))).traced
    change (World.tidy ((w.after before).take .cancelParent).1).supervisor.closed = true
    rw [hfired, traced.supervisor]
    refine (State.closed_run _ _).mpr (.inl ?_)
    rw [supervisor_input]
    exact (State.closed_step _ _).mpr (.inr rfl)

/-! ## After the end -/

/-- The context has ended: that of the parent has, or the last handle is gone. -/
def Over (setup : Setup) (acts : List Act) : Prop :=
  setup.parented = true ∧ .step .cancelParent ∈ acts ∨ (setup.world.after acts).deserted = true

theorem Over.closed (h : Over setup acts) (orderly : setup.world.orderly acts = true) :
    (setup.world.after acts).supervisor.closed = true := by
  rcases h with ⟨parented, fired⟩ | deserted
  · exact closed_of_parent (sound_fresh setup) (listed_fresh setup) orderly parented fired
  · exact closed_of_deserted (listed_fresh setup) orderly nofun deserted

/-- What becomes of the tasks: `w` is a world in which the context has ended, and `v` a later
one.  A body that runs goes on until it returns or panics or is dropped, and a task that has not
begun is skipped once those before it have ended. -/
structure Faded (name : String) (before given : List Input) (w v : World) : Prop where
  cancelled : ∀ i < v.supervisor.tasks.length, v.supervisor.isCancelled i = true
  uncalled : State.calls (w.supervisor.run given).2 = [] ∧ v.starts = w.starts
  running : ∀ i, v.supervisor.stageOf i = some .running → w.supervisor.stageOf i = some .running
  skipped : ∀ i r, ¬w.supervisor.Started i → (i, r) ∈ v.results →
    r = .returned (.ok .skipped) ∨ r = .aborted ∧ .abort i ∈ before ++ given
  awaited : ∀ front x rest i, given = front ++ x :: rest →
    .resolve i (.returned (.ok .skipped)) ∈ ((w.supervisor.run front).1.step x).2 →
      (w.supervisor.run front).1.Clear i
  kept : ∀ front x rest i, before ++ given = front ++ x :: rest →
    (State.run { name } front).1.stageOf i = some .running →
      (State.run { name } (front ++ [x])).1.stageOf i = some .running ∨ State.Ends i x
  returned : ∀ i r, w.supervisor.stageOf i = some .running → (i, r) ∈ v.results →
    r ≠ .returned (.ok .skipped) ∧ r ≠ .returned (.ok .completed)
  ended : ∀ i, v.supervisor.isEnded i = true → (∀ key, v.supervisor.owner? key ≠ some i) ∧
    .signal (.ended i) ∈ (State.run { name } (before ++ given)).2 ∧ ∃ r, (i, r) ∈ v.results
  ordered : ∀ key i j, v.supervisor.keyOf i = some key → v.supervisor.keyOf j = some key → j < i →
    v.supervisor.isEnded i = true → v.supervisor.isEnded j = true
  still : v.executor.ready = [] → ∀ key i, v.supervisor.keyOf i = some key →
    v.supervisor.isEnded i = true ∨ ∃ j ≤ i, v.supervisor.keyOf j = some key ∧
      w.supervisor.stageOf j = some .running ∧ v.supervisor.stageOf j = some .running

theorem Traced.news {given : List Input} {r : Result} (h : Traced w given v) (sound : Sound w)
    (known : (i, r) ∈ v.results) :
    r = .aborted ∨ w.supervisor.stageOf i = some .ended ∨
      .resolve i r ∈ (w.supervisor.run given).2 := by
  rw [h.results] at known
  rcases List.mem_append.mp known with hold | hnew
  · by_cases hr : r = .aborted
    · exact .inl hr
    · exact .inr (.inl (sound.ended hold hr))
  · exact .inr (.inr (State.mem_resolved_iff.mp hnew))

theorem Traced.mem_results {log : List Input} {r : Result} (h : Traced setup.world log v) :
    (i, r) ∈ v.results ↔ .resolve i r ∈ (State.run { name := setup.name } log).2 := by
  rw [h.results]
  exact State.mem_resolved_iff

theorem Traced.told_end {log : List Input} (h : Traced setup.world log v)
    (ended : v.supervisor.isEnded i = true) : (∀ key, v.supervisor.owner? key ≠ some i) ∧
      .signal (.ended i) ∈ (State.run { name := setup.name } log).2 ∧ ∃ r, (i, r) ∈ v.results := by
  have hchained := (State.chained_fresh setup.name).run log
  have htold := (State.told_fresh setup.name).run log
  rw [List.nil_append] at htold
  rw [State.isEnded_iff, h.supervisor] at ended
  obtain ⟨r, told⟩ := (htold.past i).mp (.inr ended)
  refine ⟨fun key owner => ?_, (htold.ended i).mp ended, r, h.mem_results.mpr told⟩
  rw [h.supervisor] at owner
  exact (hchained.owner key i owner).2.1 ended

theorem no_body_begins_after_context_end (setup : Setup) (acts later : List Act)
    (orderly : setup.world.orderly (acts ++ later) = true) (ended : Over setup acts) :
    ∃ before given, Traced setup.world before (setup.world.after acts) ∧
      Traced (setup.world.after acts) given (setup.world.after (acts ++ later)) ∧
      Faded setup.name before given (setup.world.after acts)
        (setup.world.after (acts ++ later)) := by
  obtain ⟨hearly, hlater⟩ := (orderly_append _ _ _).mp orderly
  have hclosed := ended.closed hearly
  have hattended := attended_after setup orderly
  have hsound := sound_after (sound_fresh setup) hearly
  have hordered := listed_after (sound_fresh setup) (listed_fresh setup) hearly
  obtain ⟨before, hbefore⟩ := traced_after (sound_fresh setup) (listed_fresh setup) hearly
  obtain ⟨given, hgiven⟩ := traced_after hsound hordered hlater
  rw [after_append] at hattended ⊢
  refine ⟨before, given, hbefore, hgiven, ?_⟩
  have hall := hbefore.trans hgiven
  generalize setup.world.after acts = w at *
  generalize w.after later = v at *
  have hfresh := State.chained_fresh setup.name
  have hresigned : State.Resigned w.supervisor := by
    refine ⟨hsound.chained, ?_, hclosed⟩
    rw [hbefore.supervisor]
    exact (State.asked_fresh setup.name).run hfresh before
  have hlast : State.Resigned v.supervisor := by
    rw [hgiven.supervisor]
    exact hresigned.run given
  have hfades := hresigned.fades given
  have hrunning (i : Nat) (running : v.supervisor.stageOf i = some .running) :
      w.supervisor.stageOf i = some .running :=
    hfades.running i (by rwa [← hgiven.supervisor])
  constructor
  · exact hlast.asked.closed hlast.closed
  · obtain ⟨names, hstarts, hcalls⟩ := hgiven.starts
    rw [hfades.uncalled, List.length_nil, List.length_eq_zero_iff] at hcalls
    exact ⟨hfades.uncalled, by rw [hstarts, hcalls, List.append_nil]⟩
  · exact hrunning
  · intro i r fresh known
    have haborted (heq : r = .aborted) : r = .aborted ∧ .abort i ∈ before ++ given :=
      ⟨heq, State.aborted_of_run (hall.mem_results.mp (heq ▸ known))⟩
    rcases hgiven.news hsound known with heq | hended | hnew
    · exact .inr (haborted heq)
    · exact absurd (.inr hended) fresh
    · exact (hfades.skipped i r hnew fun running => fresh (.inl running)).imp_right haborted
  · exact fun front x rest i _ told => (hresigned.run front).chained.clear_of_skipped told
  · intro front x rest i _ running
    rw [State.run_concat]
    exact State.running_step running x
  · intro i r running known
    rcases hgiven.news hsound known with rfl | hended | hnew
    · exact ⟨nofun, nofun⟩
    · rw [hended] at running
      cases running
    · exact hfades.returned i r hnew running
  · exact fun i => hall.told_end
  · intro key i j hi hj lt hended
    rw [State.isEnded_iff] at hended ⊢
    exact hlast.chained.cleared i (.inr hended) key j hi hj lt
  · intro still key i launched
    have hthreaded : v.supervisor.Threaded := by
      rw [hall.supervisor]
      exact (State.threaded_fresh setup.name).run hfresh _
    by_cases hended : v.supervisor.stageOf i = some .ended
    · exact .inl ((State.isEnded_iff _ _).mpr hended)
    · obtain ⟨j, hle, hkey, hstage⟩ := hattended.held hthreaded still launched hended
      exact .inr ⟨j, hle, hkey, hrunning j hstage, hstage⟩

/-- A body runs, one waits behind it and one is in the queue when the parent's context ends. -/
def fading : List Act :=
  [.step (.launch (.number 7) "first" [.pause (.hold "gate")] none none), .turn 0,
    .step (.launch (.number 7) "second" [] none none),
    .step (.launch (.number 8) "third" [] none none), .step .cancelParent]

def faded : List Act :=
  [.step (.launch (.number 7) "fourth" [] none none), .turn 1, .turn 2, .turn 3,
    .step (.release "gate"), .turn 0, .turn 1, .turn 3]

theorem bodies_skipped_after_parent_end :
    let setup : Setup := { managed := false, parented := true }
    setup.world.orderly (fading ++ faded) = true ∧ Over setup fading ∧
      (setup.world.after (fading ++ faded)).starts = ["first"] ∧
      (setup.world.after (fading ++ faded)).events.map (fun e => (e.kind, e.taskId)) =
        [(.taskLaunched, some 1), (.taskStarted, some 1), (.taskCancelRequested, some 1),
          (.taskLaunched, some 2), (.taskLaunched, some 3), (.taskCancelRequested, some 2),
          (.taskLaunched, some 4), (.taskSkipped, some 3), (.taskCancelled, some 1),
          (.taskSkipped, some 2), (.taskSkipped, some 4)] ∧
      ∃ before given, Traced setup.world before (setup.world.after fading) ∧
        Traced (setup.world.after fading) given (setup.world.after (fading ++ faded)) ∧
        Faded setup.name before given (setup.world.after fading)
          (setup.world.after (fading ++ faded)) := by
  intro setup
  have horderly : setup.world.orderly (fading ++ faded) = true := by decide +kernel
  have hover : Over setup fading := .inl ⟨rfl, by simp [fading]⟩
  exact ⟨horderly, hover, by decide +kernel, by decide +kernel,
    no_body_begins_after_context_end setup fading faded horderly hover⟩

/-- The last handle is dropped while the body runs. -/
example : (Setup.world { managed := false }).deserted = false ∧
    ((Setup.world { managed := false }).after (fading ++ [.step .dropAll])).deserted = true := by
  decide +kernel

end Scenario

end Lifecycle.Supervisor
