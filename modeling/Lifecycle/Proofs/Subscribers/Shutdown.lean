import Lifecycle.Proofs.Subscribers.Worlds

/-!
# Shutting down drains the queues

Whoever shuts a set down stops the listener and lets the set go, and waits for one task after the
other to end.  When that is over, each subscriber has been handed all that its queue had accepted,
and no task of the set is left.  As long as it is not over, some task of the set can run or some
subscriber is busy with an event.
-/

namespace Lifecycle.Subscribers

namespace Hosting

open HasExecutor

variable {W σ τ η : Type} {base k : Nat} {id : TaskId} {subs : List (String × Nat)}
  {log : List (Nat × Event)}

section Crewed

variable [Hosting W σ τ η] {w : W}

structure Drained (log : List (Nat × Event)) (w : W) : Prop where
  handed : ∀ k c, (state w).channels[k]? = some c → handedTo k log = c.accepted
  ended : ∀ c ∈ (state w).channels, c.work = .ended
  deaf : (state w).listener.isListening = false
  closed : (state w).isOpen = false
  tasks : ∀ id p, ¬Job w id p

theorem Crewed.drained (h : Crewed base none log w) (closed : (state w).isOpen = false)
    (finished : (state w).unfinished? = none) : Drained log w := by
  have hended : ∀ c ∈ (state w).channels, c.work = .ended := fun c mem => by
    have hover := List.findIdx?_eq_none_iff.mp finished c mem
    simpa using hover
  have hdeaf : (state w).listener.isListening = false := by
    rw [State.isOpen, Bool.or_eq_false_iff] at closed
    exact closed.2
  refine ⟨fun k c channel => ?_, hended, hdeaf, closed, fun id p job => ?_⟩
  · have hmem := List.mem_of_getElem? channel
    have hempty := h.sound.drained c hmem (hended c hmem)
    rw [h.told k c channel]
    exact List.take_of_length_le (List.drop_eq_nil_iff.mp hempty)
  · cases p with
    | worker k hand =>
        obtain ⟨rfl, hlt⟩ := h.placed id k hand job
        have hwork : (state w).workOf k = some .ended := by
          rw [State.workOf, List.getElem?_eq_getElem hlt]
          exact congrArg some (hended _ (List.getElem_mem hlt))
        cases h.stands k _ hwork (by simp) with
        | ended absent => exact absent hand job
    | listener =>
        rw [(h.listener id job (by simp)).1] at hdeaf
        cases hdeaf

theorem Crewed.busy {s : Signal} (h : Crewed base none log w) (quiet : (executor w).ready = [])
    (isOver : s.isOver = true) (awaits : Awaits w id s) :
    ∃ k handler, s = .workerOver k ∧ (state w).workOf k = some .handling ∧
      Job w (base + k) (.worker k (some handler)) := by
  have hpending := h.pending id s isOver awaits
  cases s with
  | listenerOver =>
      obtain ⟨listener, job⟩ := h.listening hpending.1
      obtain ⟨_, hready | ⟨hgoing, _⟩⟩ := h.listener listener job (by simp)
      · rw [quiet] at hready
        cases hready
      · exact absurd (hgoing.symm.trans hpending.2) (by simp)
  | workerOver k =>
      obtain ⟨hclosed, x, hwork, hgoing⟩ := hpending
      cases h.stands k x hwork (by simp) with
      | idle job awaits =>
          rcases awaits with hready | ⟨_, hopen, _⟩
          · rw [quiet] at hready
            cases hready
          · exact absurd (hclosed.symm.trans hopen) (by simp)
      | handling job => exact ⟨k, _, rfl, hwork, job⟩
      | ended => exact absurd rfl hgoing
  | published | stop | queue => cases isOver

end Crewed

section Run

variable [DecidableEq σ] [Handling W σ τ η] [LawfulHandling W] {w start : W}

/-- Whatever happens, once a shutdown is over every subscriber has been handed exactly what its
queue had accepted, and none of the set's tasks is left; and a shutdown that goes on while no task
can run waits for a subscriber that is busy with an event. -/
theorem shutting_down_drains (fresh : Fresh subs start) (run : Run (Hosting.start start) log w) :
    ((Hosting.shutDown w).2 = [] → Drained log (Hosting.shutDown w).1) ∧
      ((Hosting.shutDown w).2 ≠ [] → ∀ id program, Suspended (Hosting.close w id program) id) ∧
      ∀ id, Suspended w id → (executor w).ready = [] →
        ∃ k worker handler, (state w).workOf k = some .handling ∧
          Job w worker (.worker k (some handler)) := by
  have hcrewed := fresh.run run
  obtain ⟨hdown, hpending, hover⟩ := hcrewed.shutDown
  refine ⟨fun ended => ?_, fun hmore id program => ?_, fun id ⟨s, isOver, awaits⟩ quiet => ?_⟩
  · obtain ⟨hclosed, hfinished⟩ := hover ended
    exact hdown.drained hclosed hfinished
  · rw [Hosting.close]
    generalize Hosting.shutDown w = result at hpending hmore
    obtain ⟨v, signals⟩ := result
    cases signals with
    | nil => exact absurd rfl hmore
    | cons s rest =>
        refine ⟨s, (hpending s List.mem_cons_self).1, ?_⟩
        rw [Awaits, executor_update]
        exact Executor.mem_waits_suspend List.mem_cons_self program none
  · obtain ⟨k, handler, _, hwork, job⟩ := hcrewed.busy quiet isOver awaits
    exact ⟨k, _, handler, hwork, job⟩

end Run

end Hosting

namespace Scenario

open HasExecutor Hosting

/-- A set is shut down while the first of its subscribers waits for the latch. -/
def farewells : List Act :=
  [.step .listen, .step (.emit (.of .taskStarted) 1), .step (.emit (.of .errorReported) 1), .turn 0,
    .turn 1, .shutdown, .turn 2, .turn 3, .turn 1, .turn 2, .turn 3, .turn 1]

def reopening : List Act := farewells ++ [.step (.release "latch"), .turn 0]

theorem shutting_down_waits_for_latch :
    ∃ log more,
      Run (Hosting.start (World.unmanned 8 crew)) log
        ((World.ofSubscribers 8 crew).after farewells) ∧
      Suspended ((World.ofSubscribers 8 crew).after farewells) 3 ∧
      ((World.ofSubscribers 8 crew).after farewells).executor.ready = [] ∧
      (∃ k worker handler,
        ((World.ofSubscribers 8 crew).after farewells).set.workOf k = some .handling ∧
          Job ((World.ofSubscribers 8 crew).after farewells) worker (.worker k (some handler))) ∧
      Run (Hosting.start (World.unmanned 8 crew)) more
        ((World.ofSubscribers 8 crew).after reopening) ∧
      (Hosting.shutDown ((World.ofSubscribers 8 crew).after reopening)).2 = [] ∧
      Drained more (Hosting.shutDown ((World.ofSubscribers 8 crew).after reopening)).1 := by
  have hkept := kept_ofSubscribers 8 crew
  have hfresh := fresh_unmanned 8 crew
  have horderly : (World.ofSubscribers 8 crew).orderly reopening = true := by decide +kernel
  have hfirst : (World.ofSubscribers 8 crew).orderly farewells = true := by decide +kernel
  obtain ⟨log, hfarewells⟩ := hkept.runs hfirst
  obtain ⟨more, hreopening⟩ := hkept.runs horderly
  have hsuspended : Suspended ((World.ofSubscribers 8 crew).after farewells) 3 :=
    ⟨.workerOver 0, rfl, by unfold Awaits; decide +kernel⟩
  have hquiet : ((World.ofSubscribers 8 crew).after farewells).executor.ready = [] := by
    decide +kernel
  have hover : (Hosting.shutDown ((World.ofSubscribers 8 crew).after reopening)).2 = [] := by
    decide +kernel
  exact ⟨log, more, hfarewells, hsuspended, hquiet,
    (shutting_down_drains hfresh hfarewells).2.2 3 hsuspended hquiet, hreopening, hover,
    (shutting_down_drains hfresh hreopening).1 hover⟩

end Scenario

end Lifecycle.Subscribers
