import Lifecycle.Proofs.Resource.Turn

/-!
# What keeps the record true

Whatever a task does in its turn, whatever users ask for and whenever the clock moves, the record
tells what happens to the resources.
-/

namespace Lifecycle.Supervisor.Scenario

open HasExecutor
open Resource

variable {source : String} {turn : Option TaskId} {acting : Option Nat} {v w : World} {log : Record}
  {id : TaskId}
  {i : Nat} {b : Option Body} {who? : Option (Loader Value)} {t : Task} {rest : Rest Signal Task}

/-! ## Bodies that are called -/

theorem Kept.begun (kept : Kept source (some id) (some i) w log)
    (running : w.supervisor.stageOf i = some .running) (fresh : deedsOf i log = []) :
    Working source id i (w.loader? i) (callBody w i).1
        (log ++ linesOf (w.loader? i)
          ((callBody w i).2.load.toList.map fun load => .seeded (.progress load.2.seed))) ∧
      (callBody w i).2.load = loadOf (w.loader? i) := by
  have hload : (callBody w i).2.load = loadOf (w.loader? i) := by
    rw [← load_eq (State.lt_of_stageOf running)]
    change ((w.bodies[i]?).getD { name := "", rest := [] }).load = _
    cases w.bodies[i]? <;> rfl
  refine ⟨?_, hload⟩
  rw [hload]
  have hworld : (callBody w i).1 =
      ((callBody w i).2.load.elim w fun load => w.modifyCell load.1 load.2.start).note
        (callBody w i).2.name .start := by
    dsimp only [callBody]
    cases ((w.bodies[i]?).getD { name := "", rest := [] }).load <;> rfl
  rw [hworld, hload]
  cases hloader : w.loader? i with
  | none =>
      rw [linesOf_none, List.append_nil]
      have hworking : Working source id i none w log := by
        refine ⟨kept, hloader, running, ?_⟩
        rintro _ ⟨⟩
      exact hworking.note _ _
  | some who =>
      obtain ⟨rfl, _⟩ := World.loader?_eq_some_iff.mp hloader
      have hdeed := kept.deed (d := .seeded (.progress who.load.seed)) hloader running ⟨fresh, rfl⟩
        (.write kept.ordered (kept.loads _ who hloader) (f := who.load.start) rfl rfl rfl)
      have hworking : Working source id who.task (some who) (w.modifyCell who.cell who.load.start)
          (log ++ [.load who (.seeded (.progress who.load.seed))]) := by
        refine ⟨hdeed, hloader, running, ?_⟩
        rintro _ ⟨⟩
        rw [deedsOf_append, fresh, deedsOf_singleton, if_pos rfl]
        exact ⟨[], rfl, fun _ h => absurd h List.not_mem_nil⟩
      exact hworking.note _ _

/-! ## Turns -/

theorem Kept.summoned (kept : Kept source none none w log) (queued : id ∈ w.executor.ready)
    (task : w.executor.task? id = some (.program (.supervised i b))) :
    Kept source (some id) (some i) (update w (·.call id)) log ∧ Serves w i b := by
  obtain ⟨_, hserves⟩ := kept.crew id i b (Option.some_ne_none id).symm task
  refine ⟨(kept.called queued).acts ?_ fun k b' other task' => ?_, hserves⟩
  · exact (State.lt_of_stageOf hserves.stage).trans_eq kept.bodies.symm
  · exact other (congrArg some (kept.unique id k i b b' (Option.some_ne_none id).symm
      (Option.some_ne_none k).symm task task'))

theorem Kept.turn_running (kept : Kept source none none w log) (queued : id ∈ w.executor.ready)
    {body : Body} (task : w.executor.task? id = some (.program (.supervised i (some body)))) :
    Kept source none none
      (Hosted.leave (Bodied.run (update w (·.call id)) i body).1 id
        (Bodied.run (update w (·.call id)) i body).2)
      (log ++ (update w (·.call id)).record (.program (.supervised i (some body)))) := by
  obtain ⟨hsummoned, hserves⟩ := kept.summoned queued task
  have hrunning : w.supervisor.stageOf i = some .running := hserves.stage
  have hworking : Working source id i (w.loader? i) (update w (·.call id)) log :=
    ⟨hsummoned, rfl, hrunning, fun who loader => (kept.abreast_all i).running who loader hrunning⟩
  refine hworking.run ?_
  rw [← load_eq (State.lt_of_stageOf hrunning)]
  exact (hserves.load body rfl).symm

theorem Kept.turn_waiting (kept : Kept source none none w log) (queued : id ∈ w.executor.ready)
    (task : w.executor.task? id = some (.program (.supervised i none))) :
    Kept source none none
      (Hosted.leave (Bodied.turn (update w (·.call id)) (.supervised i none)).1 id
        (Bodied.turn (update w (·.call id)) (.supervised i none)).2)
      (log ++ (update w (·.call id)).record (.program (.supervised i none))) := by
  obtain ⟨hsummoned, hserves⟩ := kept.summoned queued task
  have hwaiting : w.supervisor.stageOf i = some .waiting := hserves.stage
  have habreast : Abreast (update w (·.call id)) log i := (kept.abreast_all i).congr rfl rfl
  have hfresh : deedsOf i log = [] := by
    refine (kept.abreast_all i).fresh ?_
    simp [State.Started, hwaiting]
  have hserves : Serves (update w (·.call id)) i none := hserves.congr rfl rfl
  generalize update w (·.call id) = w at hsummoned hserves habreast ⊢
  have hstate : Hosting.state w = w.supervisor := rfl
  have hbegun : Kept source (some id) (some i) (Hosting.input w (.begin i)) log := by
    refine hsummoned.input rfl ?_ fun j r tells => ?_
    · rintro _ ⟨⟩
      rfl
    · cases tells
      exact hfresh
  simp only [Bodied.turn, World.record, hstate]
  cases hawaits : w.supervisor.awaits i with
  | some p =>
      simp only [Option.isSome_some, Bool.true_or, if_true, List.append_nil]
      refine hsummoned.left _ ?_ ?_
      · rintro _ ⟨⟩
        exact habreast
      · rintro _ _ ⟨⟩
        exact ⟨rfl, hserves⟩
  | none =>
      have hstage := State.stageOf_begin hserves.stage hawaits
      rw [← supervisor_input] at hstage
      cases hcancelled : w.supervisor.isCancelled i with
      | true =>
          simp only [Option.isSome_none, Bool.or_true, Bool.not_true, Bool.false_eq_true, if_true,
            if_false, List.append_nil]
          refine hbegun.left_ended ?_
          rintro _ ⟨⟩
          refine abreast_of_ended ?_ ?_
          · rw [hstage, hcancelled, if_pos rfl]
          · rw [hfresh]
            exact .nil
      | false =>
          rw [hcancelled] at hstage
          obtain ⟨hworking, hload⟩ := hbegun.begun hstage hfresh
          have hrun := hworking.run hload
          rw [List.append_assoc, ← linesOf_append, loader?_input rfl] at hrun
          exact hrun

def Rest.isBodiless (rest : Rest Signal Task) : Bool := rest.program?.all Task.isBodiless

theorem Kept.idles (kept : Kept source (some id) none w log)
    (bodiless : Rest.isBodiless rest = true) :
    Kept source none none (Hosted.leave w id rest) log := by
  refine kept.left rest (fun i act => absurd act (Option.some_ne_none i).symm) fun i b task => ?_
  rw [Rest.isBodiless, task] at bodiless
  cases bodiless

theorem Kept.join (kept : Kept source (some id) none w log) (pending : List Nat)
    {program : List Nat → Program Body}
    (bodiless : ∀ tasks, Task.isBodiless (.program (program tasks)) = true) :
    Kept source none none (Hosted.leave (Bodied.join w pending program).1 id
      (Bodied.join w pending program).2) log := by
  unfold Bodied.join
  cases (Hosting.state w).stillRunning pending with
  | nil =>
      refine Kept.idles ?_ rfl
      cases program [] with
      | supervised | releaser => exact kept
      | cancelAll | waitIdle => exact kept.silent (.note kept.ordered _ _)
  | cons i rest =>
      exact kept.idles (bodiless _)

theorem Kept.release (kept : Kept source (some id) none w log) (i : Nat) :
    Kept source none none (Hosted.leave (Hosting.input w (.release i)) id .ended) log := by
  by_cases horphaned : w.supervisor.stageOf i = some .orphaned
  · -- An orphan has no task of its own any more, so the releaser can act for it.
    have hacts : Kept source (some id) (some i) w log := by
      refine kept.acts ((State.lt_of_stageOf horphaned).trans_eq kept.bodies.symm)
        fun k b other task => ?_
      have hstage := (kept.crew k i b other task).2.stage
      rw [horphaned] at hstage
      cases b <;> cases hstage
    have habreast : Abreast (Scenario.stepped w (.release i)) log i :=
      (kept.abreast_all i).stepped rfl (by rintro ⟨⟩)
    have hreleased : Kept source (some id) (some i) (Hosting.input w (.release i)) log := by
      refine hacts.input rfl ?_ fun j r tells => ?_
      · rintro _ ⟨⟩
        rfl
      · cases tells
    refine hreleased.left_ended ?_
    rintro _ ⟨⟩
    exact habreast.congr (supervisor_input w _) (bodies_input w _)
  · have hsame : Hosting.input w (.release i) = w := by
      unfold Hosting.input
      change (w.supervisor.step (.release i)).2.foldl Hosting.perform
        { w with supervisor := (w.supervisor.step (.release i)).1 } = w
      rw [State.step_release_of_ne horphaned]
      rfl
    rw [hsame]
    exact kept.idles rfl

theorem Kept.cancelled (kept : Kept source turn acting w log) (owners : List (Value × Nat)) :
    Kept source turn acting (owners.foldl (fun w o => Hosting.input w (.cancel o.1)) w) log := by
  induction owners generalizing w with
  | nil => exact kept
  | cons o rest ih => exact ih (kept.request rfl rfl)

theorem Kept.watched (kept : Kept source (some id) none w log) (name : String) (c : Nat)
    (v : Watcher) :
    Kept source none none (Hosted.leave (w.watch name c v).1 id (w.watch name c v).2) log := by
  have hsees {sights : List (String × Nat × Option (Outcome Value))} :
      Kept source (some id) none { w with sights } log :=
    kept.silent (.of_quiet (.refl kept.ordered) rfl rfl (List.append_nil _).symm rfl rfl (.refl _))
  simp only [World.watch]
  split
  · exact kept.idles rfl
  · exact hsees.idles rfl
  · split
    · exact hsees.idles rfl
    · exact hsees.idles rfl

theorem Kept.turn_idle (kept : Kept source (some id) none w log)
    (bodiless : t.isBodiless = true) :
    Kept source none none (Hosted.leave (Hosted.turn w id t).1 id (Hosted.turn w id t).2) log := by
  cases t with
  | program p =>
      cases p with
      | supervised => cases bodiless
      | releaser i =>
          simp only [Hosted.turn, Bodied.turn]
          cases (Hosting.state w).awaits i with
          | some p => exact kept.idles rfl
          | none => exact kept.release i
      | cancelAll pending =>
          cases pending with
          | none => exact (kept.cancelled _).join _ fun _ => rfl
          | some pending => exact kept.join _ fun _ => rfl
      | waitIdle pending =>
          simp only [Hosted.turn, Bodied.turn]
          cases (Hosting.state w).stillRunning pending with
          | cons i rest => exact kept.idles rfl
          | nil => exact kept.join _ fun _ => rfl
  | waiter name i =>
      simp only [Hosted.turn]
      split
      · exact (kept.silent (.note kept.ordered _ _)).idles rfl
      · exact kept.idles rfl
  | watcher name c v => exact kept.watched name c v

theorem record_of_bodiless (bodiless : t.isBodiless = true) : w.record t = [] := by
  cases t with
  | program p =>
      cases p with
      | supervised => cases bodiless
      | releaser | cancelAll | waitIdle => rfl
  | waiter | watcher => rfl

theorem discard_of_bodiless (bodiless : t.isBodiless = true) : Hosted.discard w id t = w := by
  cases t with
  | program p =>
      cases p with
      | supervised => cases bodiless
      | releaser | cancelAll | waitIdle => rfl
  | waiter | watcher => rfl

theorem Kept.turned (kept : Kept source none none w log) (queued : id ∈ w.executor.ready)
    (task : w.executor.task? id = some t) :
    Kept source none none
      (Hosted.leave (Hosted.turn (update w (·.call id)) id t).1 id
        (Hosted.turn (update w (·.call id)) id t).2)
      (log ++ (update w (·.call id)).record t) := by
  cases htask : t.isBodiless with
  | true =>
      rw [record_of_bodiless htask, List.append_nil]
      exact (kept.called queued).turn_idle htask
  | false =>
      obtain ⟨i, b, rfl⟩ := Task.eq_supervised htask
      cases b with
      | some body => exact kept.turn_running queued task
      | none => exact kept.turn_waiting queued task

theorem Kept.discarded (kept : Kept source none none w log) (queued : id ∈ w.executor.ready)
    (task : w.executor.task? id = some t) :
    Kept source none none (update (Hosted.discard (update w (·.call id)) id t) (·.retire id))
      log := by
  cases htask : t.isBodiless with
  | true =>
      rw [discard_of_bodiless htask]
      exact (kept.called queued).left_ended fun _ act => by cases act
  | false =>
      -- The task has told nothing, or its body is left where it is: no block is touched.
      obtain ⟨i, b, rfl⟩ := Task.eq_supervised htask
      obtain ⟨hsummoned, _⟩ := kept.summoned queued task
      have hcalled : Abreast (update w (·.call id)) log i := (kept.abreast_all i).congr rfl rfl
      have habreast : Abreast (Scenario.stepped (update w (·.call id)) (.abort i)) log i :=
        hcalled.stepped rfl (by rintro ⟨⟩)
      have haborted : Kept source (some id) (some i)
          (Hosting.input (update w (·.call id)) (.abort i)) log := by
        refine hsummoned.input rfl ?_ fun j r tells => ?_
        · rintro _ ⟨⟩
          rfl
        · cases tells
          trivial
      refine haborted.left_ended ?_
      rintro _ ⟨⟩
      exact habreast.congr (supervisor_input _ _) (bodies_input _ _)

theorem Kept.tidied (kept : Kept source none none w log) : Kept source none none w.tidy log := by
  have hclosed : Kept source none none w.closeSupervisor log := by
    unfold World.closeSupervisor
    split
    · exact kept
    · exact kept.request rfl rfl
  refine List.foldlRecOn (motive := fun v => Kept source none none v log) _ _ hclosed
    fun v h c _ => ?_
  split
  · exact h
  · exact h.silent (.touchCell h.ordered c fun _ => rfl)

/-! ## Steps -/

theorem Kept.told (kept : Kept source turn acting w log) {line : Line Value}
    (other : ∀ i, line.deedOf? i = none) (aside : Aside turn w [line] [] v) :
    Kept source turn acting v (log ++ [line]) := by
  have hother (who : Loader Value) (d : Deed Value) : line ≠ .load who d := by
    rintro rfl
    have := other who.task
    simp [Line.deedOf?] at this
  refine kept.aside aside (.snoc kept.legal ?_) (fun who d hline => ?_)
    fun _ _ h => absurd h List.not_mem_nil
  · cases line with
    | load who d => exact absurd rfl (hother who d)
    | set | report => trivial
  · exact absurd (List.mem_singleton.mp hline).symm (hother who d)

theorem Aside.spawn (ordered : w.executor.Ordered turn)
    (bodiless : t.isBodiless = true) : Aside turn w [] [] (spawn w t) :=
  .update (f := (·.spawn t)) (.spawn ordered bodiless)

theorem Kept.set (kept : Kept source turn acting w log) (name : String) (o : Outcome Value) :
    Kept source turn acting ((w.cellNamed name).2.modifyCell (w.cellNamed name).1 (·.set o))
      (log ++ [.set (w.cellNamed name).1 o]) := by
  have hnamed := kept.silent (.cellNamed kept.ordered name)
  refine hnamed.told (fun _ => rfl)
    (.modifyCell hnamed.ordered (cellNamed_lt kept.named name) ?_ ?_ rfl)
  · simp [Cell.set, writesTo, Line.writeTo?]
  · intro k hk
    exact writesTo_untouched (beq_eq_false_iff_ne.mpr (Ne.symm hk))

theorem Kept.reported (kept : Kept source turn acting w log) (o : Outcome Value) :
    Kept source turn acting
      { w with reports := w.reports ++ o.error?.toList.map fun e =>
          { source := w.supervisor.name, failure := .task e } }
      (log ++ o.error?.toList.map .report) := by
  cases o.error? with
  | none =>
      simp only [Option.toList_none, List.map_nil, List.append_nil]
      exact kept
  | some e =>
      refine kept.told (fun _ => rfl) ?_
      constructor
      · exact .refl kept.ordered
      · rfl
      · rfl
      · exact (List.append_nil _).symm
      · rfl
      · exact Nat.le_refl _
      · exact fun _ => (List.append_nil _).symm
      · exact fun named => named

theorem Kept.aborted (kept : Kept source none none w log) (name : String) :
    Kept source none none (w.abort name).1 log := by
  unfold World.abort
  repeat' split
  · exact kept
  · exact kept
  · exact kept
  · exact kept.silent (.update (f := (·.abort _)) (.abort kept.ordered _))

theorem Kept.taken (kept : Kept source none none w log) {s : Step}
    (admitted : w.admits (.step s) = true) :
    Kept source none none (w.take s).1 (log ++ w.entries (.step s)) := by
  have hkept {v : World} (h : Kept source none none v log) :
      Kept source none none v (log ++ []) := by
    rwa [List.append_nil]
  have hsame := hkept kept
  have hsilent {v : World} (aside : Aside none w [] [] v) : Kept source none none v (log ++ []) :=
    hkept (kept.silent aside)
  have hplain {v : World} (executor : v.executor = w.executor)
      (supervisor : v.supervisor = w.supervisor) (bodies : v.bodies = w.bodies)
      (results : v.results = w.results) (reports : v.reports = w.reports)
      (cells : v.cells = w.cells)
      (resources : v.resources.Sublist w.resources) : Kept source none none v log := by
    refine kept.silent (.of_quiet ?_ supervisor bodies ?_ reports cells resources)
    · rw [executor]
      exact .refl kept.ordered
    · rw [results, List.append_nil]
  cases s with
  | launch key name body resource policy =>
      exact hkept (kept.launches key name body resource policy)
  | cancel key =>
      have hcancelled : Kept source none none (Hosting.input w (.cancel key)) log :=
        kept.request rfl rfl
      refine hkept ?_
      simp only [World.take, World.cancel]
      split
      · exact hcancelled
      · exact kept
  | owned key => exact hsame
  | owner key name =>
      refine hkept ?_
      simp only [World.take]
      split
      · exact kept
      · cases name with
        | none => exact kept
        | some name => exact hplain rfl rfl rfl rfl rfl rfl (.refl _)
  | handle name =>
      refine hkept ?_
      simp only [World.take]
      split <;> exact kept
  | wait name =>
      refine hkept ?_
      simp only [World.take]
      split
      · exact kept
      · exact kept.silent (.spawn kept.ordered rfl)
  | cancelAll | waitIdle =>
      refine hkept ?_
      simp only [World.take]
      split
      · exact kept.silent (.spawn kept.ordered rfl)
      · exact kept
  | abort name => exact hkept (kept.aborted name)
  | cancelParent =>
      refine hkept ?_
      simp only [World.take]
      split
      · exact kept.request rfl rfl
      · exact kept
  | clone | dropClone | dropAll => exact hkept (hplain rfl rfl rfl rfl rfl rfl (.refl _))
  | debug => exact hsame
  | newResource name o =>
      exact hsilent (.addCell kept.ordered name rfl fun _ h => (List.mem_filter.mp h).1)
  | set name o => exact kept.set name o
  | dropResource name => exact hkept (hplain rfl rfl rfl rfl rfl rfl List.filter_sublist)
  | debugResource name => exact hsilent (.cellNamed kept.ordered name)
  | subscribe name watcher =>
      have hnamed := Aside.cellNamed kept.ordered name
      exact hsilent (hnamed.trans (.spawn hnamed.executor.ordered rfl))
  | reportError o =>
      simp only [World.take, World.entries]
      split
      · exact kept.reported o
      · exact hsame
  | advance | settle => cases admitted
  | release latch =>
      have hopened : Kept source none none { w with opened := latch :: w.opened } log :=
        hplain rfl rfl rfl rfl rfl rfl (.refl _)
      exact hkept (hopened.silent (.update (f := (·.signal _)) (.signal kept.ordered _)))

theorem Kept.perform (kept : Kept source none none w log) {a : Act} (admitted : w.admits a = true) :
    Kept source none none (w.perform a) (log ++ w.entries a) := by
  cases a with
  | step s => exact (kept.taken admitted).tidied
  | turn id =>
      have hqueued : id ∈ w.executor.ready := List.contains_iff_mem.mp admitted
      obtain ⟨t, htask⟩ := Option.isSome_iff_exists.mp (kept.ordered.queued id hqueued)
      have hturn : Hosted.runTurn w id = _ := Hosted.runTurn_eq hqueued
      have htask' : (HasExecutor.executor w).task? id = some t := htask
      rw [World.perform, World.entries, hturn, htask', htask]
      by_cases hdoomed : w.executor.doomed.contains id = true
      · have hdoomed' : (HasExecutor.executor w).doomed.contains id = true := hdoomed
        simp only [hdoomed, hdoomed', if_true, List.append_nil]
        exact (kept.discarded hqueued htask).tidied
      · have hdoomed' : ¬ (HasExecutor.executor w).doomed.contains id = true := hdoomed
        simp only [hdoomed, hdoomed']
        exact (kept.turned hqueued htask).tidied
  | clock target =>
      have hnothing : w.entries (.clock target) = [] := rfl
      rw [hnothing, List.append_nil]
      exact kept.silent (.update (f := (·.moveClock target)) (.moveClock kept.ordered target))

end Lifecycle.Supervisor.Scenario
