import Lifecycle.Proofs.Resource.Run
import Lifecycle.Proofs.Supervisor.Stages

/-!
# What the tasks of a supervisor do in their turns

The turn of a task is a course of requests to the supervisor, with other things beside that leave
the supervisor and its tasks alone; it may begin with the call of a body and end with its return.
`Episode` lists what can happen from the end of one turn to the end of the next.
-/

namespace Lifecycle.Supervisor.Scenario

open HasExecutor
open Resource (Cell Load Watcher)

variable {turn : Option TaskId} {u v w : World} {x y : Executor Signal Task} {id : TaskId}
  {i c : Nat} {t : Task} {rest : Rest Signal Task} {given : Input}

/-- It has no part in the life of a task of the supervisor. -/
def Task.isBystander : Task → Bool
  | .program (.supervised _ _) | .program (.releaser _) => false
  | .program _ | .waiter _ _ | .watcher _ _ _ => true

def Task.isNewcomer : Task → Bool
  | .program (.cancelAll none) | .program (.waitIdle []) | .waiter _ _ | .watcher _ _ _ => true
  | .program _ => false

def Note.isStart : Note → Bool
  | .start => true
  | _ => false

def World.starts (w : World) : List String :=
  (w.notes.filter fun n => n.2.2.isStart).map Prod.fst

/-! ## Beside the supervisor -/

structure Enters (turn : Option TaskId) (x y : Executor Signal Task) (id : TaskId) (t : Task) :
    Prop where
  other : turn ≠ some id
  later : x.nextTask ≤ id
  ready : id ∈ y.ready
  newcomer : t.isNewcomer = true

/-- No task has changed, those that wait may have been woken, and only newcomers were added. -/
structure Calm (turn : Option TaskId) (x y : Executor Signal Task) : Prop where
  ordered : y.Listed turn
  task : ∀ id, (x.task? id).isSome = true → y.task? id = x.task? id
  spared : ∀ id, (x.task? id).isSome = true → turn ≠ some id → Executor.Spared id x y
  fresh : ∀ id t, y.task? id = some t → (x.task? id).isSome = true ∨ Enters turn x y id t
  nextTask : x.nextTask ≤ y.nextTask
  doomed : ∀ id ∈ y.doomed, id ∈ x.doomed ∨ ∃ i b, x.task? id = some (.program (.supervised i b))

namespace Calm

theorem refl (ordered : x.Listed turn) : Calm turn x x where
  ordered := ordered
  task _ _ := rfl
  spared _ _ other := .refl (ordered.idle other)
  fresh _ _ task := .inl (by rw [task]; rfl)
  nextTask := Nat.le_refl _
  doomed _ := .inl

theorem of_task (ordered : y.Listed turn) (task : ∀ id, y.task? id = x.task? id)
    (nextTask : y.nextTask = x.nextTask)
    (spared : ∀ id, (x.task? id).isSome = true → turn ≠ some id → Executor.Spared id x y)
    (doomed : ∀ id ∈ y.doomed,
      id ∈ x.doomed ∨ ∃ i b, x.task? id = some (.program (.supervised i b))) :
    Calm turn x y :=
  ⟨ordered, fun id _ => task id, spared, fun id _ h => .inl (by rw [← task, h]; rfl),
    Nat.le_of_eq nextTask.symm, doomed⟩

theorem signal (ordered : x.Listed turn) (s : Signal) : Calm turn x (x.signal s) := by
  have hspares := Executor.spares_signal ordered.toOrdered s
  refine of_task (ordered.signal s) (fun id => (Executor.keeps_signal x s).task id nofun) ?_
    hspares.spared fun id doomed => .inl ?_
  · obtain ⟨woken, hwoken⟩ := x.signal_eq s
    rw [hwoken]
  · rwa [hspares.doomed] at doomed

theorem spawn (ordered : x.Listed turn) (newcomer : t.isNewcomer = true) :
    Calm turn x (x.spawn t) := by
  have hspares := Executor.spares_spawn ordered.toOrdered t
  refine ⟨ordered.spawn t, hspares.task, hspares.spared, fun id t' task => ?_, Nat.le_succ _,
    fun _ => .inl⟩
  by_cases hid : id = x.nextTask
  · rw [hid, Executor.task?_spawn ordered.toNumbered] at task
    cases task
    refine .inr ⟨?_, Nat.le_of_eq hid.symm, List.mem_append_right _ ?_, newcomer⟩
    · rw [← ordered.turn, hid]
      exact ordered.toNumbered.idle
    · exact List.mem_singleton.mpr hid
  · rw [Executor.task?_spawn_ne t hid] at task
    exact .inl (by rw [task]; rfl)

theorem moveClock (ordered : x.Listed turn) (now : Nat) : Calm turn x (x.moveClock now) := by
  refine of_task (ordered.moveClock now) (fun id => ?_) ?_
    (fun id present other => Executor.spared_moveClock present (ordered.idle other) now)
    fun id doomed => .inl ?_
  all_goals obtain ⟨woken, hwoken⟩ := x.moveClock_eq now
  · rw [hwoken]
    rfl
  · rw [hwoken]
  · rwa [hwoken] at doomed

theorem abort (ordered : x.Listed turn) {b : Option Body}
    (task : x.task? id = some (.program (.supervised i b))) : Calm turn x (x.abort id) := by
  have habort : x.abort id = { x with doomed := id :: x.doomed }.wake id := by
    rw [Executor.abort, if_neg (by simp [task])]
  obtain ⟨woken, hwoken⟩ := Executor.wake_eq { x with doomed := id :: x.doomed } id
  refine of_task (ordered.abort id) (x.task?_abort id) ?_ (fun k _ other => ?_) fun k doomed => ?_
  · rw [habort, hwoken]
  · rw [habort, hwoken]
    exact ⟨rfl, ordered.idle other, List.mem_append_left _, fun _ => .inl, fun _ => .inl⟩
  · rw [habort, hwoken] at doomed
    rcases List.mem_cons.mp doomed with rfl | hold
    · exact .inr ⟨i, b, task⟩
    · exact .inl hold

end Calm

structure Beside (turn : Option TaskId) (w v : World) : Prop where
  executor : Calm turn w.executor v.executor
  supervisor : v.supervisor = w.supervisor
  bus : v.bus = w.bus
  results : v.results = w.results
  parented : v.parented = w.parented
  starts : v.starts = w.starts

/-- Users ask something of the supervisor now and then, in the turn of `turn` or between turns. -/
inductive Leads (turn : Option TaskId) (w : World) : World → Prop
  | start (ordered : w.executor.Listed turn) : Leads turn w w
  | beside {u v : World} (leads : Leads turn w u) (beside : Beside turn u v) : Leads turn w v
  | request {u : World} {given : Input} (leads : Leads turn w u) (free : given.task? = none) :
      Leads turn w (Hosting.input u given)

theorem perform_ordered (ordered : w.executor.Listed turn) (e : Effect) :
    (Hosting.perform w e).executor.Listed turn := by
  cases e with
  | publish | resolve | callBody => exact ordered
  | signal s => exact ordered.signal (.task s)
  | start i | startRelease i => exact ordered.spawn _

theorem performAll_ordered (ordered : w.executor.Listed turn) (effects : List Effect) :
    (effects.foldl Hosting.perform w).executor.Listed turn := by
  induction effects generalizing w with
  | nil => exact ordered
  | cons e rest ih => exact ih (perform_ordered ordered e)

theorem input_ordered (ordered : w.executor.Listed turn) (given : Input) :
    (Hosting.input w given).executor.Listed turn :=
  performAll_ordered (w := { w with supervisor := (w.supervisor.step given).1 }) ordered _

namespace Leads

theorem ordered (leads : Leads turn w v) : v.executor.Listed turn := by
  induction leads with
  | start ordered => exact ordered
  | beside _ beside _ => exact beside.executor.ordered
  | request _ _ ih => exact input_ordered ih _

theorem calm (leads : Leads turn w u) (executor : Calm turn u.executor v.executor)
    (supervisor : v.supervisor = u.supervisor) (bus : v.bus = u.bus)
    (results : v.results = u.results) (parented : v.parented = u.parented)
    (notes : v.notes = u.notes) : Leads turn w v :=
  leads.beside
    ⟨executor, supervisor, bus, results, parented, by rw [World.starts, notes, World.starts]⟩

theorem note (leads : Leads turn w u) (name : String) {n : Note} (silent : n.isStart = false) :
    Leads turn w (u.note name n) :=
  leads.beside ⟨.refl leads.ordered, rfl, rfl, rfl, rfl, by
    simp [World.starts, World.note, silent]⟩

theorem modifyCell (leads : Leads turn w u) (c : Nat) (f : Cell Value → Cell Value) :
    Leads turn w (u.modifyCell c f) :=
  leads.calm (.signal leads.ordered _) rfl rfl rfl rfl rfl

theorem cellNamed (leads : Leads turn w u) (name : String) :
    Leads turn w (u.cellNamed name).2 := by
  unfold World.cellNamed
  split
  · exact leads
  · exact leads.calm (.refl leads.ordered) rfl rfl rfl rfl rfl

theorem reportFor (leads : Leads turn w u) (i : Nat) (e : TaskError) :
    Leads turn w (u.reportFor i e) := by
  unfold World.reportFor
  split
  · exact leads
  · exact leads.calm (.refl leads.ordered) rfl rfl rfl rfl rfl

theorem launch (leads : Leads turn w u) (key : Value) (name : String) (body : List Item)
    (resource : Option String) (policy : Option (Option Value × Bool)) :
    Leads turn w (u.launch key name body resource policy).1 := by
  have hlaunch {v : World} (h : Leads turn w v) (bodies : List Body) :
      Leads turn w (Hosting.input { v with bodies } (.launch key)) :=
    (h.calm (v := { v with bodies }) (.refl h.ordered) rfl rfl rfl rfl rfl).request rfl
  unfold World.launch
  split
  · cases resource with
    | none => exact hlaunch leads _
    | some r => exact hlaunch (leads.cellNamed r) _
  · exact leads

theorem cancel (leads : Leads turn w u) (key : Value) : Leads turn w (u.cancel key).1 := by
  unfold World.cancel
  split
  · change Leads turn w (Hosting.input u (.cancel key))
    exact leads.request rfl
  · exact leads

/-! ## Bodies -/

theorem forwardItem (leads : Leads turn w u) (i c : Nat) (item : StreamItem) :
    Leads turn w (Scenario.forwardItem i c u item).1 := by
  cases item with
  | pause p => exact leads
  | outcome o =>
      refine Leads.modifyCell ?_ _ _
      cases o.error? with
      | none => exact leads
      | some e => exact leads.reportFor i e

theorem forward (leads : Leads turn w u) (i c : Nat) (items : List StreamItem) :
    Leads turn w (Scenario.forward u i c items).1 := by
  unfold Scenario.forward
  split
  · exact leads
  · have hscript := runScript_holds (P := fun v => Leads turn w v)
      (fun v item h => h.forwardItem i c item) items leads
    generalize runScript (Scenario.forwardItem i c) u items = result at hscript ⊢
    obtain ⟨v, reached⟩ := result
    cases reached <;> exact hscript

theorem act (leads : Leads turn w u) (i : Nat) (name : String)
    (load : Option (Nat × Resource.Load Value)) (item : Item) :
    Leads turn w (Scenario.act i name load u item).1 := by
  cases item with
  | pause | panic => exact leads
  | yield times => cases times <;> exact leads
  | untilCancelled | sleepOrCancel | untilOrCancel =>
      simp only [Scenario.act]
      repeat' split
      all_goals first | exact leads | exact leads.note name rfl
  | log | token | owned | giveUp => exact leads.note name rfl
  | launch key other rest resource policy =>
      exact (leads.launch key other rest resource policy).note name rfl
  | cancel key => exact (leads.cancel key).note name rfl
  | set o =>
      cases load with
      | none => exact leads
      | some load => exact leads.modifyCell _ _
  | get | data =>
      cases load with
      | none => exact leads
      | some load => exact leads.note name rfl
  | report e =>
      cases load with
      | none => exact leads
      | some load => exact leads.reportFor i e
  | emitAll items =>
      cases load with
      | none => exact leads
      | some load =>
          have hforward := leads.forward i load.1 items
          simp only [Scenario.act]
          generalize Scenario.forward u i load.1 items = result at hforward ⊢
          obtain ⟨v, reaction⟩ := result
          cases reaction with
          | proceed => exact hforward.note name rfl
          | suspend | giveWay | finish => exact hforward

theorem conclude (leads : Leads turn w u) (i : Nat) (load : Option (Nat × Resource.Load Value))
    (r : Except TaskError Unit) :
    ∃ v r', Scenario.conclude u i load r = (v, .ended r') ∧ Leads turn w v := by
  unfold Scenario.conclude
  repeat' split
  · exact ⟨_, _, rfl, leads⟩
  · exact ⟨_, _, rfl, leads⟩
  · exact ⟨_, _, rfl, (leads.reportFor i _).modifyCell _ _⟩

end Leads

inductive Runs (turn : Option TaskId) (w : World) (i : Nat) : World × Rest Signal Task → Prop
  | pauses {v : World} {rest : Rest Signal Task} {body : Body} (leads : Leads turn w v)
      (program : rest.program? = some (.program (.supervised i (some body)))) :
      Runs turn w i (v, rest)
  | returns {v : World} (leads : Leads turn w v) (r : Except TaskError Unit) :
      Runs turn w i (Hosting.input v (.finish i r), .ended)
  | panics {v : World} (leads : Leads turn w v) (info : String) :
      Runs turn w i (Hosting.input v (.panic i info), .ended)

theorem Leads.run (leads : Leads turn w u) (i : Nat) (body : Body) :
    Runs turn w i (Bodied.run u i body) := by
  have hscript := runScript_holds (P := fun v => Leads turn w v)
    (fun v item h => h.act i body.name body.load item) body.rest leads
  simp only [Bodied.run, Bodied.runBody, runBody]
  generalize runScript _ u body.rest = result at hscript ⊢
  obtain ⟨v, reached⟩ := result
  cases reached with
  | completed =>
      obtain ⟨v', r, heq, hleads⟩ :=
        (hscript.note body.name (n := .ended) rfl).conclude i body.load (.ok ())
      simp only [heq]
      exact .returns hleads r
  | finished stop =>
      cases stop with
      | gaveUp e =>
          obtain ⟨v', r, heq, hleads⟩ := hscript.conclude i body.load (.error e)
          simp only [heq]
          exact .returns hleads r
      | panicked info => exact .panics hscript info
  | suspended | gaveWay => exact .pauses hscript rfl

/-! ## Tasks -/

inductive Acts (id : TaskId) (w : World) : Task → World × Rest Signal Task → Prop
  | waits {p : Program Body} {i j : Nat} (place : p = .supervised i none ∨ p = .releaser i)
      (awaits : w.supervisor.awaits i = some j) :
      Acts id w (.program p) (w, .waiting (.program p) [.task (.ended j)] none)
  | skips {i : Nat} (free : w.supervisor.awaits i = none)
      (cancelled : w.supervisor.isCancelled i = true) :
      Acts id w (.program (.supervised i none)) (Hosting.input w (.begin i), .ended)
  | begins {i : Nat} {r : World × Rest Signal Task} (free : w.supervisor.awaits i = none)
      (spared : w.supervisor.isCancelled i = false)
      (runs : Runs (some id) (callBody (Hosting.input w (.begin i)) i).1 i r) :
      Acts id w (.program (.supervised i none)) r
  | resumes {i : Nat} {body : Body} {r : World × Rest Signal Task} (runs : Runs (some id) w i r) :
      Acts id w (.program (.supervised i (some body))) r
  | releases {i : Nat} (free : w.supervisor.awaits i = none) :
      Acts id w (.program (.releaser i)) (Hosting.input w (.release i), .ended)
  | stands {t : Task} {v : World} {rest : Rest Signal Task} (bystander : t.isBystander = true)
      (leads : Leads (some id) w v)
      (stays : ∀ p, rest.program? = some p → p.isBystander = true) : Acts id w t (v, rest)

theorem callBody_noted (ordered : w.executor.Listed turn) (i : Nat) :
    ∃ u name, (callBody w i).1 = u.note name .start ∧ Beside turn w u := by
  simp only [callBody]
  split
  · exact ⟨_, _, rfl, .refl ordered, rfl, rfl, rfl, rfl, rfl⟩
  · exact ⟨_, _, rfl, .signal ordered _, rfl, rfl, rfl, rfl, rfl⟩

theorem callBody_ordered (ordered : w.executor.Listed turn) (i : Nat) :
    (callBody w i).1.executor.Listed turn := by
  obtain ⟨u, name, heq, hbeside⟩ := callBody_noted ordered i
  rw [heq]
  exact hbeside.executor.ordered

theorem Leads.cancelled (leads : Leads turn w u) (owners : List (Value × Nat)) :
    Leads turn w (owners.foldl (fun w o => Hosting.input w (.cancel o.1)) u) := by
  induction owners generalizing u with
  | nil => exact leads
  | cons o rest ih => exact ih (leads.request rfl)

theorem Leads.join (leads : Leads (some id) w u) (bystander : t.isBystander = true)
    (pending : List Nat) {program : List Nat → Program Body}
    (stays : ∀ tasks, Task.isBystander (.program (program tasks)) = true) :
    Acts id w t (Bodied.join u pending program) := by
  unfold Bodied.join
  cases (Hosting.state u).stillRunning pending with
  | nil =>
      refine .stands bystander ?_ nofun
      have hstays := stays []
      cases hprogram : program [] with
      | supervised | releaser =>
          rw [hprogram] at hstays
          cases hstays
      | cancelAll | waitIdle => exact leads.note _ rfl
  | cons i rest =>
      refine .stands bystander leads ?_
      rintro _ ⟨⟩
      exact stays _

theorem acts_watch (ordered : w.executor.Listed (some id)) (name : String) (c : Nat)
    (v : Watcher) : Acts id w (.watcher name c v) (w.watch name c v) := by
  have hstart : Leads (some id) w w := .start ordered
  have hsees {sights : List (String × Nat × Option (Outcome Value))} :
      Leads (some id) w { w with sights } :=
    hstart.calm (.refl ordered) rfl rfl rfl rfl rfl
  simp only [World.watch]
  split
  · exact .stands rfl hstart (by rintro _ ⟨⟩; rfl)
  · exact .stands rfl hsees nofun
  · split
    · exact .stands rfl hsees nofun
    · exact .stands rfl hsees (by rintro _ ⟨⟩; rfl)

theorem acts_turn (ordered : w.executor.Listed (some id)) (t : Task) :
    Acts id w t (Hosted.turn w id t) := by
  have hstart : Leads (some id) w w := .start ordered
  cases t with
  | program p =>
      cases p with
      | supervised i body =>
          cases body with
          | some body => exact .resumes (hstart.run i body)
          | none =>
              simp only [Hosted.turn, Bodied.turn]
              cases hawaits : (Hosting.state w).awaits i with
              | some p => exact .waits (.inl rfl) hawaits
              | none =>
                  cases hcancelled : (Hosting.state w).isCancelled i with
                  | true => exact .skips hawaits hcancelled
                  | false =>
                      have hcalled := callBody_ordered (input_ordered ordered (.begin i)) i
                      exact .begins hawaits hcancelled ((Leads.start hcalled).run i _)
      | releaser i =>
          simp only [Hosted.turn, Bodied.turn]
          cases hawaits : (Hosting.state w).awaits i with
          | some p => exact .waits (.inr rfl) hawaits
          | none => exact .releases hawaits
      | cancelAll pending =>
          cases pending with
          | none =>
              simp only [Hosted.turn, Bodied.turn]
              exact (hstart.cancelled _).join rfl _ fun _ => rfl
          | some pending =>
              simp only [Hosted.turn, Bodied.turn]
              exact hstart.join rfl _ fun _ => rfl
      | waitIdle pending =>
          simp only [Hosted.turn, Bodied.turn]
          cases (Hosting.state w).stillRunning pending with
          | cons i rest =>
              exact .stands rfl hstart (by rintro _ ⟨⟩; rfl)
          | nil => exact hstart.join rfl _ fun _ => rfl
  | waiter name i =>
      simp only [Hosted.turn]
      split
      · exact .stands rfl (hstart.note _ rfl) (by simp [Rest.program?])
      · exact .stands rfl hstart (by rintro _ ⟨⟩; rfl)
  | watcher name c v => exact acts_watch ordered name c v

/-! ## Episodes -/

/-- What can happen while no task has its turn, or what the turn of a task can come to. -/
inductive Episode (w : World) : World → Prop
  | between {v : World} (leads : Leads none w v) : Episode w v
  | turn {id : TaskId} {t : Task} {r : World × Rest Signal Task} (queued : id ∈ w.executor.ready)
      (task : w.executor.task? id = some t) (spared : id ∉ w.executor.doomed)
      (acts : Acts id (update w (·.call id)) t r)
      (taken : r = Hosted.turn (update w (·.call id)) id t) : Episode w (Hosted.leave r.1 id r.2)
  | dropped {id : TaskId} {t : Task} (queued : id ∈ w.executor.ready)
      (task : w.executor.task? id = some t) (doomed : id ∈ w.executor.doomed) :
      Episode w (update (Hosted.discard (update w (·.call id)) id t) (·.retire id))

theorem Leads.tidy (leads : Leads none w u) : Leads none w u.tidy := by
  have hclosed : Leads none w u.closeSupervisor := by
    unfold World.closeSupervisor
    split
    · exact leads
    · exact leads.request rfl
  refine List.foldlRecOn (motive := fun v => Leads none w v) _ _ hclosed fun v h c _ => ?_
  split
  · exact h
  · exact h.modifyCell c _

theorem Leads.abort (leads : Leads none w u) (name : String) : Leads none w (u.abort name).1 := by
  unfold World.abort
  repeat' split
  · exact leads
  · exact leads
  · exact leads
  · rename_i i _ _ thread hthread
    obtain ⟨t, hfind, rfl⟩ := Option.map_eq_some_iff.mp hthread
    have htask := leads.ordered.task?_of_mem (List.mem_of_find?_eq_some hfind)
    have hsupervised := List.find?_some hfind
    split at hsupervised
    · rename_i j b heq
      rw [heq] at htask
      exact leads.calm (.abort leads.ordered htask) rfl rfl rfl rfl rfl
    · cases hsupervised

theorem Leads.take (leads : Leads none w u) {s : Step} (admitted : u.admits (.step s) = true) :
    Leads none w (u.take s).1 := by
  have hsame {v : World} (executor : v.executor = u.executor)
      (supervisor : v.supervisor = u.supervisor) (bus : v.bus = u.bus)
      (results : v.results = u.results) (parented : v.parented = u.parented)
      (notes : v.notes = u.notes) : Leads none w v :=
    leads.calm (by rw [executor]; exact .refl leads.ordered) supervisor bus results parented notes
  cases s with
  | launch key name body resource policy => exact leads.launch key name body resource policy
  | cancel key => exact leads.cancel key
  | owned | debug => exact leads
  | owner key name =>
      simp only [World.take]
      split
      · exact leads
      · cases name with
        | none => exact leads
        | some name => exact hsame rfl rfl rfl rfl rfl rfl
  | handle name =>
      simp only [World.take]
      split <;> exact leads
  | wait name =>
      simp only [World.take]
      split
      · exact leads
      · exact leads.calm (.spawn leads.ordered rfl) rfl rfl rfl rfl rfl
  | cancelAll | waitIdle =>
      simp only [World.take]
      split
      · exact leads.calm (.spawn leads.ordered rfl) rfl rfl rfl rfl rfl
      · exact leads
  | abort name => exact leads.abort name
  | cancelParent =>
      simp only [World.take]
      split
      · exact leads.request rfl
      · exact leads
  | clone | dropClone | dropAll => exact hsame rfl rfl rfl rfl rfl rfl
  | newResource | dropResource => exact hsame rfl rfl rfl rfl rfl rfl
  | set name o => exact (leads.cellNamed name).modifyCell _ _
  | debugResource name => exact leads.cellNamed name
  | subscribe name watcher =>
      have hnamed := leads.cellNamed name
      exact hnamed.calm (.spawn hnamed.ordered rfl) rfl rfl rfl rfl rfl
  | reportError o =>
      simp only [World.take]
      split
      · exact hsame rfl rfl rfl rfl rfl rfl
      · exact leads
  | advance | settle => cases admitted
  | release latch => exact leads.calm (.signal leads.ordered _) rfl rfl rfl rfl rfl

theorem Runs.ordered {r : World × Rest Signal Task} (runs : Runs turn w i r) :
    r.1.executor.Listed turn := by
  cases runs with
  | pauses leads => exact leads.ordered
  | returns leads | panics leads => exact input_ordered leads.ordered _

theorem Acts.ordered {r : World × Rest Signal Task} (acts : Acts id w t r)
    (ordered : w.executor.Listed (some id)) : r.1.executor.Listed (some id) := by
  cases acts with
  | waits => exact ordered
  | skips | releases => exact input_ordered ordered _
  | begins _ _ runs => exact runs.ordered
  | resumes runs => exact runs.ordered
  | stands _ leads => exact leads.ordered

theorem discard_cases (w : World) (id : TaskId) (t : Task) :
    (∃ i b, t = .program (.supervised i b) ∧ Hosted.discard w id t = Hosting.input w (.abort i)) ∨
      (∀ i b, t ≠ .program (.supervised i b)) ∧ Hosted.discard w id t = w := by
  cases t with
  | program p =>
      cases p with
      | supervised i b => exact .inl ⟨i, b, rfl, rfl⟩
      | releaser | cancelAll | waitIdle => exact .inr ⟨nofun, rfl⟩
  | waiter | watcher => exact .inr ⟨nofun, rfl⟩

theorem executor_leave (w : World) (id : TaskId) (rest : Rest Signal Task) :
    (Hosted.leave w id rest).executor = w.executor.left id rest :=
  Hosted.executor_leave w id rest

theorem Episode.ordered (episode : Episode w v) (ordered : w.executor.Listed none) :
    v.executor.Listed none := by
  cases episode with
  | between leads => exact leads.ordered
  | turn queued task spared acts =>
      rw [executor_leave]
      exact (acts.ordered (ordered.call queued)).left _
  | @dropped id t queued task doomed =>
      have hcalled : (update w (·.call id)).executor.Listed (some id) := ordered.call queued
      have hdiscarded : (Hosted.discard (update w (·.call id)) id t).executor.Listed (some id) := by
        rcases discard_cases (update w (·.call id)) id t with ⟨i, b, _, heq⟩ | ⟨_, heq⟩
        · rw [heq]
          exact input_ordered hcalled _
        · rwa [heq]
      exact hdiscarded.left .ended

theorem perform_episode (ordered : w.executor.Listed none) {a : Act}
    (admitted : w.admits a = true) : ∃ u, Episode w u ∧ Leads none u (w.perform a) := by
  have hstart : Leads none w w := .start ordered
  have htidy {v : World} (h : Episode w v) : ∃ u, Episode w u ∧ Leads none u (Hosted.tidy v) :=
    ⟨v, h, Leads.tidy (.start (h.ordered ordered))⟩
  cases a with
  | step s => exact ⟨w, .between hstart, (hstart.take admitted).tidy⟩
  | clock target =>
      exact ⟨w, .between hstart, hstart.calm (.moveClock ordered target) rfl rfl rfl rfl rfl⟩
  | turn id =>
      have hqueued : id ∈ w.executor.ready := List.contains_iff_mem.mp admitted
      obtain ⟨t, htask⟩ := Option.isSome_iff_exists.mp (ordered.queued id hqueued)
      by_cases hdoomed : id ∈ w.executor.doomed
      · rw [World.perform, Hosted.runTurn_of_doomed hqueued htask hdoomed]
        exact htidy (.dropped hqueued htask hdoomed)
      · rw [World.perform, Hosted.runTurn_of_task hqueued htask hdoomed]
        exact htidy (.turn hqueued htask hdoomed (acts_turn (ordered.call hqueued) t) rfl)

theorem listed_fresh (s : Setup) : s.world.executor.Listed none where
  tasks _ := nofun
  running _ := nofun
  queued _ := nofun
  turn := rfl
  distinct := List.nodup_nil

end Lifecycle.Supervisor.Scenario
