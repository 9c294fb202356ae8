import Lifecycle.Proofs.Debouncer.Upkeep

/-!
# The turns of jobs and actions

A job that holds the slot goes to sleep or starts its action, and an action works off its script,
in which it may call the debouncer again.  No turn takes the slot and the tasks apart.
-/

namespace Lifecycle.Debouncer.Scenario

open HasExecutor

variable {given : DebounceSettings} {turn : Option TaskId} {w : World} {log : List (Entry Action)}
  {id : TaskId} {job : Job} {h : Held Action}

/-! ## Scripts -/

section Scripts

variable {name : String}

theorem spares_act (ordered : w.executor.Ordered turn) (item : Item) :
    Executor.Spares turn w.executor (act w item).1.executor := by
  cases item with
  | pause p => exact .refl ordered
  | panic p => exact .refl ordered
  | schedule name delay body =>
      rw [act]
      split
      · exact spares_schedule ordered name delay body
      · exact .refl ordered

theorem spares_script (ordered : w.executor.Ordered turn) (items : List Item) :
    Executor.Spares turn w.executor (runScript act w items).1.executor :=
  runScript_holds (P := fun v : World => Executor.Spares turn w.executor v.executor)
    (fun _ item spares => spares.trans (spares_act spares.ordered item)) items (.refl ordered)

theorem starts_note (w : World) (n : Note) :
    (w.note n).starts = w.starts ++ (World.starts { w with notes := [(w.executor.now, n)] }) := by
  simp [World.starts, World.note]

theorem Kept.act (kept : Kept given turn w log) (item : Item) :
    Kept given turn (Scenario.act w item).1 (log ++ w.asked item) := by
  cases item with
  | pause p =>
      rw [World.asked, List.append_nil]
      exact kept
  | panic p =>
      rw [World.asked, List.append_nil]
      exact kept
  | schedule name delay body =>
      rw [Scenario.act, World.asked, World.called]
      split
      · apply (kept.schedule name delay body).noted
        rw [starts_note]
        exact List.append_nil _
      · rw [List.append_nil]
        apply kept.noted
        rw [starts_note]
        exact List.append_nil _

theorem Kept.script (kept : Kept given turn w log) (items : List Item) :
    Kept given turn (runScript Scenario.act w items).1 (log ++ w.calls items) :=
  runScript_keeps World.asked (fun _ _ item kept => kept.act item) items log kept

theorem Kept.runAction (kept : Kept given turn w log) (name : String) (items : List Item) :
    Kept given turn (Scenario.runAction w name items).1 (log ++ w.calls items) := by
  have hscript := kept.script items
  rw [Scenario.runAction]
  generalize runScript Scenario.act w items = result at hscript ⊢
  obtain ⟨v, course⟩ := result
  cases course with
  | completed =>
      apply hscript.noted
      rw [starts_note]
      exact List.append_nil _
  | finished => exact hscript
  | suspended => exact hscript
  | gaveWay => exact hscript

theorem spares_runAction (ordered : w.executor.Ordered turn) (name : String) (items : List Item) :
    Executor.Spares turn w.executor (runAction w name items).1.executor := by
  have hscript := spares_script ordered items
  rw [runAction]
  generalize runScript act w items = result at hscript ⊢
  obtain ⟨v, course⟩ := result
  cases course <;> exact hscript

theorem program?_runAction (w : World) (name : String) (items : List Item) (job : Job)
    (other : String) (body : List Item) :
    (runAction w name items).2.program? ≠ some (.held job other body) := by
  rw [runAction]
  generalize runScript act w items = result
  obtain ⟨v, course⟩ := result
  cases course <;> exact nofun

end Scripts

/-! ## Turns -/

section Turns

variable {name : String} {body rest : List Item}

theorem Kept.call (kept : Kept given none w log) (queued : id ∈ w.executor.ready)
    (other : ∀ job h, (Slot.replay given.leading log).held = some h → ¬Armed w.executor id job h) :
    Kept given (some id) (update w (·.call id)) log := by
  have hkeeps := Executor.keeps_call kept.ordered.turn (kept.ordered.queued id queued)
  refine kept.frame (kept.ordered.call queued) (Nat.le_refl _) kept.doomed rfl rfl
    (fun _ job _ _ _ task => ⟨nofun, job, rfl, task⟩) fun k job h held _ armed => ?_
  have hne : some id ≠ some k := by
    rintro heq
    cases heq
    exact other job h held armed
  have hspared := hkeeps.spared hne armed.present (kept.ordered.idle nofun)
  exact ⟨hne, job, armed.spared hspared rfl⟩

theorem Kept.leave (kept : Kept given (some id) w log)
    (present : (w.executor.task? id).isSome = true) {rest : Rest Signal Task}
    (started : ∀ job name body, rest.program? ≠ some (.held job name body)) :
    Kept given none (Hosted.leave w id rest) log := by
  have hkeeps := Executor.keeps_left kept.ordered.turn rest
  have hexecutor : (Hosted.leave w id rest).executor = w.executor.left id rest :=
    Hosted.executor_leave w id rest
  have hdebouncer : (Hosted.leave w id rest).debouncer = w.debouncer := by cases rest <;> rfl
  have hstarts : (Hosted.leave w id rest).starts = w.starts := by cases rest <;> rfl
  refine kept.frame ?_ ?_ ?_ hdebouncer hstarts ?_ ?_
  · rw [hexecutor]
    exact kept.ordered.left rest
  · rw [hexecutor]
    exact Nat.le_of_eq hkeeps.now.symm
  · rw [hexecutor, List.eq_nil_iff_forall_not_mem]
    intro other hother
    have hdoomed := Executor.doomed_left _ rest id other hother
    rw [kept.doomed] at hdoomed
    cases hdoomed
  · intro k job name body _ task
    rw [hexecutor] at task
    by_cases hk : some id = some k
    · cases hk
      rw [Executor.task?_left present] at task
      exact absurd task (started job name body)
    · rw [hkeeps.task k hk] at task
      exact ⟨hk, job, rfl, task⟩
  · intro k job h _ hk armed
    have hspared := hkeeps.spared hk armed.present (kept.ordered.idle hk)
    rw [hexecutor]
    exact ⟨nofun, job, armed.spared hspared hkeeps.now⟩

theorem Kept.dropped (kept : Kept given none w log) (queued : id ∈ w.executor.ready)
    (task : w.executor.task? id = some (.held job name body))
    (discarded : job.number ∈ w.debouncer.discarded) :
    Kept given none (Hosted.leave (update w (·.call id)) id .ended) log := by
  refine (kept.call queued fun job' h held armed => ?_).leave (kept.ordered.queued id queued)
    fun _ _ _ => nofun
  rw [armed.task] at task
  cases task
  apply (kept.discarded _ discarded).2
  rw [kept.pending_eq held, armed.number]

theorem Kept.asleep (kept : Kept given none w log) (queued : id ∈ w.executor.ready)
    (held : (Slot.replay given.leading log).held = some h) (armed : Armed w.executor id job h)
    (later : w.executor.now < h.due) (waits : 0 < job.wait.ceilMs) (signals : List Signal) :
    Kept given none (Hosted.leave (update w (·.call id)) id
      (.waiting (.held { job with deadline := some h.due } h.action.1 h.action.2) signals
        (some h.due))) log := by
  have hpresent := kept.ordered.queued id queued
  have hordered := kept.ordered.call queued
  have hcall := Executor.keeps_call kept.ordered.turn hpresent
  have hkeeps := Executor.keeps_suspend hordered.turn
    (.held { job with deadline := some h.due } h.action.1 h.action.2) signals (some h.due)
  have htask : Executor.task? _ id = _ := Executor.task?_suspend (x := w.executor.call id) hpresent
    (.held { job with deadline := some h.due } h.action.1 h.action.2) signals (some h.due)
  refine kept.frame (hordered.suspend _ _ _) (Nat.le_refl _) kept.doomed rfl rfl ?_ ?_
  · intro k job' name body _ task
    by_cases hk : some id = some k
    · cases hk
      cases Option.some.inj (htask.symm.trans task)
      exact ⟨nofun, job, rfl, armed.task⟩
    · exact ⟨nofun, job', rfl, (hcall.task k hk).symm.trans ((hkeeps.task k hk).symm.trans task)⟩
  · intro k job' h' held' _ armed'
    refine ⟨nofun, ?_⟩
    by_cases hk : some id = some k
    · cases hk
      cases held.symm.trans held'
      exact ⟨_, htask, armed.number, .inr ⟨rfl, waits, Nat.le_of_lt later⟩, nofun,
        .inr ⟨later, Executor.mem_timers_suspend _ _ _⟩⟩
    · have hspared := hcall.spared hk armed'.present (kept.ordered.idle nofun)
      have hpresent' := armed'.present
      rw [← hspared.task] at hpresent'
      have hspared' := hkeeps.spared hk hpresent' (hordered.idle hk)
      exact ⟨job', armed'.spared (hspared.trans hspared') rfl⟩

theorem Kept.started (kept : Kept given none w log) (queued : id ∈ w.executor.ready)
    (held : (Slot.replay given.leading log).held = some h) (armed : Armed w.executor id job h)
    (released : w.Released [id]) (due : w.executor.now = h.due) :
    Kept given (some id)
      (World.note { update w (·.call id) with
        debouncer := { w.debouncer with pending := none, lastStart := some w.executor.now } }
        (.started h.action.1))
      (log ++ [.started job.number (h.action.1, h.action.2) w.executor.now]) := by
  have hcall := Executor.keeps_call kept.ordered.turn (kept.ordered.queued id queued)
  constructor
  · refine kept.legal.snoc ?_
    rw [Slot.Admits, held, armed.number, due]
  · exact kept.ordered.call queued
  · exact kept.doomed
  · exact kept.settings
  · rw [Slot.replay_append_singleton]
    exact kept.calls
  · rw [Slot.replay_append_singleton]
    rfl
  · rw [Slot.replay_append_singleton]
    rfl
  · exact fun n hn => ⟨(kept.discarded n hn).1, nofun⟩
  · intro h' held'
    rw [Slot.replay_append_singleton] at held'
    cases held'
  · intro _ k hk job' name body task
    exact released k hk job' name body task
  · rw [List.filterMap_append, List.map_append, ← kept.starts, starts_note]
    rfl
  · rw [List.filterMap_append]
    intro s hs
    rcases List.mem_append.mp hs with hs | hs
    · exact kept.past s hs
    · cases List.mem_singleton.mp hs
      exact Nat.le_refl _

theorem Kept.leave_runAction (kept : Kept given (some id) w log)
    (present : (w.executor.task? id).isSome = true) (name : String) (items : List Item) :
    Kept given none
      (Hosted.leave (Scenario.runAction w name items).1 id (Scenario.runAction w name items).2)
      (log ++ w.calls items) := by
  have hspares := spares_runAction kept.ordered name items
  refine (kept.runAction name items).leave ?_ (program?_runAction w name items)
  rwa [hspares.task id present]

theorem Kept.taken (kept : Kept given none w log) (queued : id ∈ w.executor.ready) {t : Task}
    (task : w.executor.task? id = some t) :
    Kept given none
      (Hosted.leave (Hosted.turn (update w (·.call id)) id t).1 id
        (Hosted.turn (update w (·.call id)) id t).2)
      (log ++ (update w (·.call id)).deeds t) := by
  have hpresent := kept.ordered.queued id queued
  cases t with
  | acting name rest =>
      refine (kept.call queued fun job h _ armed => ?_).leave_runAction hpresent name rest
      rw [armed.task] at task
      cases task
  | held job name body =>
      obtain ⟨verdict, hcalled, hverdict⟩ : ∃ verdict,
          (update w (·.call id)).debouncer.poll (update w (·.call id)).executor.now job = verdict ∧
            w.debouncer.poll w.executor.now job = verdict := ⟨_, rfl, rfl⟩
      simp only [Hosted.turn, World.deeds, hcalled]
      cases hheld : (Slot.replay given.leading log).held with
      | none =>
          have hdiscarded := kept.free hheld id List.not_mem_nil job name body task
          cases hverdict.symm.trans (poll_of_discarded hdiscarded)
          simp only [List.append_nil]
          exact kept.dropped queued task hdiscarded
      | some h =>
          obtain ⟨holder, job', _, armed, released⟩ := kept.armed h hheld
          by_cases hid : id = holder
          · -- The task that holds the slot starts its action, or goes to sleep until it is due.
            subst hid
            cases task.symm.trans armed.task
            have hkept : job.number ∉ w.debouncer.discarded := fun hdiscarded => by
              apply (kept.discarded _ hdiscarded).2
              rw [kept.pending_eq hheld, armed.number]
            have hlatest : w.debouncer.generation = job.number := by
              rw [kept.latest hheld, armed.number]
            rcases poll_of_endsAt armed.ends hlatest hkept with
              ⟨hdue, hpoll⟩ | ⟨hlater, hwait, hpoll⟩
            · cases hverdict.symm.trans hpoll
              rw [List.append_cons]
              exact (kept.started queued hheld armed released hdue).leave_runAction hpresent _ _
            · cases hverdict.symm.trans hpoll
              simp only [List.append_nil]
              exact kept.asleep queued hheld armed hlater hwait _
          · -- All others that have not started were told to give up.
            have hother : id ∉ holder :: (none : Option TaskId).toList := by simpa using hid
            have hdiscarded := released id hother job name body task
            cases hverdict.symm.trans (poll_of_discarded hdiscarded)
            simp only [List.append_nil]
            exact kept.dropped queued task hdiscarded

theorem perform_turn (kept : Kept given none w log) (queued : id ∈ w.executor.ready) {t : Task}
    (task : w.executor.task? id = some t) :
    w.perform (.turn id) =
      Hosted.leave (Hosted.turn (update w (·.call id)) id t).1 id
        (Hosted.turn (update w (·.call id)) id t).2 := by
  refine Hosted.runTurn_of_task queued task ?_
  have hnone := kept.doomed
  exact fun doomed => List.not_mem_nil (hnone ▸ doomed)

end Turns

/-! ## Acts -/

theorem Kept.perform {a : Act} (kept : Kept given none w log) (admitted : w.admits a = true) :
    Kept given none (w.perform a) (log ++ w.entries a) := by
  cases a with
  | schedule name delay body =>
      rw [World.perform, World.take, World.entries, World.called]
      split
      · exact kept.schedule name delay body
      · rw [List.append_nil]
        exact kept
  | drop =>
      rw [World.perform, World.take, World.entries]
      split
      · exact kept.drop
      · rw [List.append_nil]
        exact kept
  | release latch =>
      rw [World.entries, List.append_nil]
      have hspares := Executor.spares_signal kept.ordered (.latch latch)
      have htask (id : TaskId) := (Executor.keeps_signal w.executor (.latch latch)).task id nofun
      refine kept.frame hspares.ordered (Nat.le_of_eq hspares.now.symm)
        (hspares.doomed.trans kept.doomed) rfl rfl ?_ ?_
      · exact fun id job name body _ task => ⟨nofun, job, rfl, (htask id).symm.trans task⟩
      · intro id job h _ _ armed
        exact ⟨nofun, job, armed.spared (hspares.spared id armed.present nofun) hspares.now⟩
  | turn id =>
      have hqueued : id ∈ w.executor.ready := List.contains_iff_mem.mp admitted
      obtain ⟨t, htask⟩ := Option.isSome_iff_exists.mp (kept.ordered.queued id hqueued)
      rw [perform_turn kept hqueued htask, World.entries, htask]
      exact kept.taken hqueued htask
  | clock target =>
      simp only [World.admits, Bool.and_eq_true, List.isEmpty_iff, decide_eq_true_eq,
        List.all_eq_true] at admitted
      obtain ⟨⟨hready, hlater⟩, hfirst⟩ := admitted
      rw [World.entries, List.append_nil]
      have hexecutor : (w.perform (.clock target)).executor = w.executor.moveClock target := rfl
      have hordered := kept.ordered.moveClock target
      have harmed {id : TaskId} {job : Job} {h : Held Action} (armed : Armed w.executor id job h) :=
        armed.moveClock (kept.ordered.idle nofun) hready hfirst
      obtain ⟨more, hmore⟩ := w.executor.moveClock_eq target
      rw [hmore] at hexecutor hordered harmed
      apply kept.frame
      · rwa [hexecutor]
      · rwa [hexecutor]
      · rw [hexecutor]
        exact kept.doomed
      · rfl
      · rfl
      · intro id job name body _ task
        rw [hexecutor] at task
        exact ⟨nofun, job, rfl, task⟩
      · intro id job h _ _ armed
        rw [hexecutor]
        exact ⟨nofun, job, harmed armed⟩

end Lifecycle.Debouncer.Scenario
