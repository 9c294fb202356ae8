import Lifecycle.Proofs.Subscribers.FanOut
import Lifecycle.Proofs.Subscribers.Runs

/-!
# Lawful worlds of subscriber sets

The worlds of scenarios keep their parts apart, and each orderly row of acts is a run.
-/

namespace Lifecycle.Subscribers

namespace Scenario

open HasExecutor Hosting

variable {w : World} {id : TaskId} {hands : Nat → Option (List Item)} {bus : Bus}
  {subs : List Subscriber} {asked : List Incident}

instance : LawfulHosting World where
  executor_withExecutor _ _ := rfl
  state_withExecutor _ _ := rfl
  executor_withState _ _ := rfl
  state_withState _ _ := rfl
  executor_withBus _ _ := rfl
  state_withBus _ _ := rfl
  toSignal_injective _ _ := Signal.set.inj
  toTask_injective _ _ := Task.program.inj

theorem runHandler_quiet (w : World) (items : List Item) {next : List Item} {signals : List Signal}
    {deadline : Option Nat} (waits : (runHandler w items).2 = .waiting next signals deadline)
    (s : Subscribers.Signal) : .set s ∉ signals := by
  induction items with
  | nil => cases waits
  | cons item rest ih =>
      cases item with
      | panic p => cases waits
      | pause p =>
          cases hpoll : p.poll w.executor.now w.opened with
          | none =>
              apply ih
              rw [← waits]
              simp [runHandler, runScript, act, Pause.react, hpoll]
          | some wait =>
              obtain ⟨p', latches, d⟩ := wait
              have hturn : (runHandler w (.pause p :: rest)).2 =
                  .waiting (.pause p' :: rest) (latches.map .latch) d := by
                simp [runHandler, runScript, act, Pause.react, hpoll]
              cases hturn.symm.trans waits
              simp

instance : LawfulHandling World where
  call w k e := by
    apply Conduct.of_frame
    change Frame w (callHandler w k e).1
    rw [callHandler]
    split
    · exact .of_eq rfl rfl
    · dsimp only
      split <;> exact .of_eq rfl rfl
  run w k items := by
    obtain ⟨result, hresult, _⟩ := runHandler_leaves w items
    apply Conduct.of_frame
    change Frame w (runHandler w items).1
    rw [hresult]
    exact .of_eq rfl rfl
  quiet w k items next signals deadline waits s _ := runHandler_quiet w items waits s

/-! ## Acts -/

theorem conduct_repeated {f : World → World} (each : ∀ w, Conduct w (f w)) (times : Nat)
    (w : World) : Conduct w (w.repeated times f) := by
  induction times with
  | zero => exact .done w
  | succ times ih =>
      rw [repeated_succ]
      exact Conduct.trans ih (each _)

theorem Kept.conduct (h : Kept bus subs asked none hands w) (s : Step)
    (admitted : w.admits (.step s) = true) : Conduct w (w.take s).1 := by
  cases s with
  | publish e times => exact conduct_repeated (fun w => .of_frame (frame_publish w e)) times w
  | emit e times =>
      rw [World.take]
      split
      · exact conduct_repeated (fun w => .of_ask w (.emit e) rfl (by simp)) times w
      · exact .done w
  | tap | untap => exact .of_frame (.of_eq rfl rfl)
  | drain name =>
      rw [World.take]
      split
      · exact .done w
      · exact .of_frame (.of_eq rfl rfl)
  | listen =>
      rw [World.take]
      split
      · rename_i howned
        exact .of_ask w (.listen w.bus.subscribe) rfl fun _ _ => (h.owned howned).1
      · exact .done w
  | dropSet =>
      rw [World.take]
      split
      · have hdisowned : Frame w { w with owned := false } := .of_eq rfl rfl
        exact .aside hdisowned (.of_ask _ .release rfl (by simp))
      · exact .done w
  | release latch =>
      have hopened : Frame w { w with opened := latch :: w.opened } := .of_eq rfl rfl
      exact .of_frame (hopened.trans (frame_signal _ _))
  | shutdown | advance | settle => cases admitted

theorem Kept.conduct_shutdown (h : Kept bus subs asked none hands w) :
    Conduct w (w.perform .shutdown) := by
  rw [World.perform]
  split
  · have hdisowned : Frame w { w with owned := false } := .of_eq rfl rfl
    exact .of_frame (hdisowned.trans (frame_spawn h.ordered.toNumbered (by simp)))
  · exact .done w

theorem leave_eq (w : World) (id : TaskId) (rest : Rest Signal Task) :
    Hosted.leave w id rest = update w (·.left id rest) := by
  cases rest <;> rfl

theorem Kept.runTurn_program {p : Program (List Item)} (h : Kept bus subs asked none hands w)
    (queued : id ∈ w.executor.ready) (task : w.executor.task? id = some (.program p)) :
    Hosted.runTurn w id = update (Handling.turn (update w (·.call id)) p).1
      (·.left id (Handling.turn (update w (·.call id)) p).2) := by
  have hspared : id ∉ w.executor.doomed := by
    rw [h.doomed]
    exact List.not_mem_nil
  rw [Hosted.runTurn_of_task (w := w) queued task hspared, leave_eq]
  rfl

theorem Kept.runTurn_shutdown (h : Kept bus subs asked none hands w)
    (queued : id ∈ w.executor.ready) (task : w.executor.task? id = some .shutdown) :
    Hosted.runTurn w id = close (update w (·.call id)) id Task.shutdown ∨
      (executor (close (update w (·.call id)) id Task.shutdown)).running = some id ∧
        (∀ p, ¬Job (close (update w (·.call id)) id Task.shutdown) id p) ∧
        Hosted.runTurn w id =
          update { close (update w (·.call id)) id Task.shutdown with closed := true }
            (·.retire id) := by
  have hspared : id ∉ w.executor.doomed := by
    rw [h.doomed]
    exact List.not_mem_nil
  have hcalled (p : Program (List Item)) : ¬Job (update w (·.call id)) id p := fun job => by
    cases task.symm.trans job
  rw [Hosted.runTurn_of_task (w := w) queued task hspared]
  obtain ⟨hbeside, hrunning⟩ := beside_shutDown (update w (·.call id))
  simp only [Hosted.turn, close]
  generalize Hosting.shutDown (update w (·.call id)) = result at hbeside hrunning ⊢
  obtain ⟨v, signals⟩ := result
  cases signals with
  | nil => exact .inr ⟨hrunning, fun p job => hcalled p ((hbeside.job id p).mp job), rfl⟩
  | cons s rest =>
      rw [leave_eq]
      exact .inl rfl

theorem Kept.run_closing (h : Kept bus subs asked none hands w) (queued : id ∈ w.executor.ready)
    (task : w.executor.task? id = some .shutdown) : Run w [] (Hosted.runTurn w id) := by
  have hapart (p : Program (List Item)) : ¬Job w id p := fun job => by cases task.symm.trans job
  have hcall : Frame w (update w (·.call id)) :=
    frame_call (w := w) h.ordered.turn (present_of_task task) hapart
  have hclosing : Happens (update w (·.call id)) []
      (close (update w (·.call id)) id Task.shutdown) :=
    .close rfl (fun p job => hapart p ((hcall.job id p).mp job)) nofun
  have hrun := (Run.of_happens (.conduct (.of_frame hcall))).trans (.of_happens hclosing)
  rcases h.runTurn_shutdown queued task with hsame | ⟨hrunning, hgone, hsame⟩
  · rwa [hsame]
  · have hended : Frame (close (update w (·.call id)) id Task.shutdown)
        { close (update w (·.call id)) id Task.shutdown with closed := true } := .of_eq rfl rfl
    have hretired := hended.trans (frame_retire hrunning hgone)
    rw [hsame]
    exact hrun.trans (.of_happens (.conduct (.of_frame hretired)))

theorem Kept.run_perform (h : Kept bus subs asked none hands w) (a : Act)
    (admitted : w.admits a = true) : ∃ log, Run w log (w.perform a) := by
  cases a with
  | step s => exact ⟨[], .of_happens (.conduct (h.conduct s admitted))⟩
  | shutdown => exact ⟨[], .of_happens (.conduct h.conduct_shutdown)⟩
  | clock target => exact ⟨[], .of_happens (.conduct (.of_frame (frame_moveClock w target)))⟩
  | turn id =>
      have hqueued := List.contains_iff_mem.mp admitted
      obtain ⟨t, task⟩ := Option.isSome_iff_exists.mp (h.ordered.queued id hqueued)
      cases t with
      | shutdown => exact ⟨[], h.run_closing hqueued task⟩
      | program p =>
          refine ⟨served (update w (·.call id)) p, .of_happens ?_⟩
          rw [World.perform, h.runTurn_program hqueued task]
          exact .turn (w := w) h.ordered.turn hqueued task

/-- Each orderly row of acts is a run. -/
theorem Kept.runs {acts : List Act} (h : Kept bus subs asked none hands w)
    (orderly : w.orderly acts = true) : ∃ log, Run w log (w.after acts) := by
  induction acts generalizing w asked hands with
  | nil => exact ⟨[], .done w⟩
  | cons a rest ih =>
      rw [World.orderly_cons] at orderly
      obtain ⟨log, hfirst⟩ := h.run_perform a orderly.1
      obtain ⟨holds, hnext⟩ := h.perform a orderly.1
      obtain ⟨more, hrest⟩ := ih hnext orderly.2
      exact ⟨log ++ more, hfirst.trans hrest⟩

def World.unmanned (busCapacity : Nat) (subs : List Subscriber) : World :=
  { bus := Bus.ofCapacity busCapacity
    set := { channels := subs.map fun s => Channel.ofCapacity s.name s.capacity }
    subscribers := subs }

theorem fresh_unmanned (busCapacity : Nat) (subs : List Subscriber) :
    Fresh (subs.map fun s => (s.name, s.capacity)) (World.unmanned busCapacity subs) where
  state := by
    rw [List.map_map]
    rfl
  numbered := ⟨nofun, nofun⟩
  jobs _ _ := nofun
  free _ _ _ := nofun

end Scenario

end Lifecycle.Subscribers
