import Lifecycle.Proofs.Subscribers.Seclusion

/-!
# The worker at its desk

A desk shows what a world is to the worker of one subscriber.  What comes to the worker changes the
desk, and so do its turns and the clock; all else leaves the desk as it is.
-/

namespace Lifecycle.Subscribers.Hosting

open HasExecutor
open HasHabits (habit memory)

variable {W σ τ η μ : Type} {base k : Nat} {id : TaskId} {x : Work} {c : Channel} {d : Desk σ η μ}
  {stage : Stage σ η} {handler : η} {e : Event} {rest : List Event}

structure Shows (d : Desk σ η μ) (c : Channel) : Prop where
  capacity : c.capacity = d.capacity
  accepted : c.accepted = d.accepted
  handed : c.handed = d.handed

theorem Shows.waiting (h : Shows d c) : c.waiting = d.waiting := by
  rw [Channel.waiting, Desk.waiting, h.accepted, h.handed]

theorem Shows.isFull (h : Shows d c) : c.isFull = d.isFull := by
  rw [Channel.isFull, Desk.isFull, h.capacity, h.waiting]

section Places

variable [Handling W σ τ η] [HasHabits W μ] {v w : W}

inductive Sits (w : W) (id : TaskId) (k : Nat) : Work → Stage σ η → Prop
  | free {x : Work} (work : x ≠ .handling) : Sits w id k x .free
  | going {handler : η} (job : Job w id (.worker k (some handler)))
      (ready : id ∈ (executor w).ready) (place : (habit w k).places handler) :
      Sits w id k .handling (.going handler)
  | paused {handler : η} {signals : List σ} {deadline : Option Nat}
      (job : Job w id (.worker k (some handler)))
      (asleep : (executor w).Asleep id signals deadline) (place : (habit w k).places handler)
      (within : ∀ s ∈ signals, (habit w k).signals s)
      (ahead : ∀ time, deadline = some time → now w < time) :
      Sits w id k .handling (.paused handler signals deadline)

theorem Sits.apart (h : Sits w id k x stage) (apart : Apart k id w v) : Sits v id k x stage := by
  cases h with
  | free work => exact .free work
  | going job ready place =>
      exact .going (apart.job _ job) (apart.ready _ job ready) (apart.habit ▸ place)
  | paused job asleep place within ahead =>
      exact .paused (apart.job _ job) (apart.asleep _ _ _ job within asleep) (apart.habit ▸ place)
        (apart.habit ▸ within) (apart.now ▸ ahead)

/-- What is on the desk is what the world is to the worker. -/
structure AtDesk (base k : Nat) (w : W) (d : Desk σ η μ) : Prop where
  crewed : ∃ log, Crewed base none log w
  deaf : (state w).listener.isListening = false
  now : HasExecutor.now w = d.now
  habit : HasHabits.habit w k = d.habit
  memory : HasHabits.memory w k = d.memory
  channel : ∃ c, (state w).channels[k]? = some c ∧ Shows d c ∧ Sits w (base + k) k c.work d.stage

theorem AtDesk.avoids {log : List (Nat × Event)} (h : AtDesk base k w d)
    (avoids : Avoids k (base + k) w v) (crewed : Crewed base none log v) : AtDesk base k v d := by
  obtain ⟨c, channel, shows, sits⟩ := h.channel
  exact ⟨⟨log, crewed⟩, avoids.deaf h.deaf, avoids.now.trans h.now, avoids.habit.trans h.habit,
    avoids.memory.trans h.memory, c, avoids.channel.trans channel, shows, sits.apart avoids.toApart⟩

theorem AtDesk.rests (h : AtDesk base k w d) (unready : base + k ∉ (executor w).ready) :
    d.Rests := by
  obtain ⟨log, hcrewed⟩ := h.crewed
  obtain ⟨c, channel, shows, sits⟩ := h.channel
  rw [Desk.Rests]
  generalize d.stage = stage at sits
  cases hwork : c.work with
  | idle =>
      rw [hwork] at sits
      cases sits
      cases hcrewed.stands k .idle (by rw [State.workOf, channel, ← hwork]; rfl) (by simp) with
      | idle _ awaits =>
          rcases awaits with ready | ⟨hempty, _⟩
          · exact absurd ready unready
          · rw [← shows.waiting, ← Circuit.waiting_eq channel]
            exact hempty
  | handling =>
      rw [hwork] at sits
      cases sits with
      | free work => exact absurd rfl work
      | going _ ready => exact absurd ready unready
      | paused => trivial
  | ended =>
      rw [hwork] at sits
      cases sits
      exact shows.waiting.symm.trans
        (hcrewed.sound.drained c (List.mem_of_getElem? channel) hwork)

theorem AtDesk.later (h : AtDesk base k w d) (deadline : Nat)
    (armed : d.stage.deadline? = some deadline) : d.now < deadline := by
  obtain ⟨c, _, _, sits⟩ := h.channel
  generalize c.work = x, d.stage = stage at sits armed
  cases sits with
  | free | going => cases armed
  | paused _ _ _ _ ahead => exact h.now ▸ ahead deadline armed

theorem AtDesk.no_listener (h : AtDesk base k w d) (id : TaskId) : ¬Job w id .listener := by
  intro job
  obtain ⟨log, hcrewed⟩ := h.crewed
  have hlistening := (hcrewed.listener id job (by simp)).1
  rw [h.deaf] at hlistening
  cases hlistening

theorem AtDesk.within (h : AtDesk base k w d) : d.handed ≤ d.accepted.length := by
  obtain ⟨log, hcrewed⟩ := h.crewed
  obtain ⟨c, channel, shows, _⟩ := h.channel
  rw [← shows.handed, ← shows.accepted]
  exact hcrewed.sound.within c (List.mem_of_getElem? channel)

theorem AtDesk.armed (h : AtDesk base k w d) {deadline : Nat}
    (armed : d.stage.deadline? = some deadline) : ⟨deadline, base + k⟩ ∈ (executor w).timers := by
  obtain ⟨c, _, _, sits⟩ := h.channel
  generalize c.work = x, d.stage = stage at sits armed
  cases sits with
  | free | going => cases armed
  | paused _ asleep => exact (asleep.timers _).mpr armed

end Places

variable [DecidableEq σ] [Handling W σ τ η] [HasHabits W μ] [Secluded W] {v w : W}

/-! ## The clock, and what comes from outside -/

theorem AtDesk.clock (h : AtDesk base k w d) (unready : base + k ∉ (executor w).ready) {time : Nat}
    (due : ∀ deadline, ⟨deadline, base + k⟩ ∈ (executor w).timers → time ≤ deadline) :
    AtDesk base k (update w (·.moveClock time)) (d.moveClock time) := by
  obtain ⟨log, hcrewed⟩ := h.crewed
  obtain ⟨c, channel, shows, sits⟩ := h.channel
  have hexecutor : executor (update w (·.moveClock time)) = (executor w).moveClock time :=
    executor_update w _
  have hnow : HasExecutor.now (update w (·.moveClock time)) = time := by
    obtain ⟨more, hmore⟩ := (executor w).moveClock_eq time
    rw [HasExecutor.now, hexecutor, hmore]
  have hhabit := habit_update w (·.moveClock time) k
  have hframe := frame_moveClock w time
  refine ⟨⟨log, hcrewed.frame hframe⟩, by rw [state_update]; exact h.deaf, hnow,
    hhabit.trans h.habit, (memory_update w _ k).trans h.memory, c,
    by rw [state_update]; exact channel, ⟨shows.1, shows.2, shows.3⟩, ?_⟩
  change Sits _ _ _ c.work (d.stage.rung time)
  generalize c.work = x, d.stage = stage at sits
  cases sits with
  | free work => exact .free work
  | going _ ready => exact absurd ready unready
  | @paused handler signals deadline job asleep place within ahead =>
      have hjob := (hframe.job _ _).mpr job
      have hplace := place
      have hwithin := within
      rw [← hhabit] at hplace hwithin
      rw [Stage.rung]
      by_cases hrings : deadline = some time
      · subst hrings
        rw [if_pos (by simp)]
        refine .going hjob ?_ hplace
        have harmed := (asleep.timers time).mpr rfl
        rw [hexecutor]
        exact (Executor.mem_timers_moveClock job.present
          (hcrewed.others _ _ job (by simp)) harmed).resolve_left fun h => Nat.lt_irrefl _ h.1
      · have hlater (deadline' : Nat) (armed : deadline = some deadline') : time < deadline' :=
          Nat.lt_of_le_of_ne (due _ ((asleep.timers _).mpr armed)) fun heq => hrings (heq ▸ armed)
        have hnot : ¬deadline.any (· ≤ time) = true := by
          cases deadline with
          | none => simp
          | some t => simpa using hlater t rfl
        rw [if_neg hnot]
        refine .paused hjob ?_ hplace hwithin fun t armed => ?_
        · rw [hexecutor]
          exact asleep.moveClock hlater
        · rw [hnow]
          exact hlater t armed

theorem AtDesk.emit (h : AtDesk base k w d) (held : (state w).held = true) (e : Event) :
    AtDesk base k (input w (.emit e)) (d.receive (.emit e)) := by
  obtain ⟨log, hcrewed⟩ := h.crewed
  obtain ⟨c, channel, shows, sits⟩ := h.channel
  have hplain (r : Receiver) : Input.emit e ≠ .listen r := by simp
  have hapart := apart_input w hplain k (base + k)
  have hstate : state (input w (.emit e)) = ((state w).fanOut e).1 := by
    rw [state_input, State.step, if_pos held]
  have hmemory := memory_input w hplain k
  have hrest : (d.receive (.emit e)).now = d.now ∧ (d.receive (.emit e)).habit = d.habit ∧
      (d.receive (.emit e)).memory = d.memory ∧ (d.receive (.emit e)).stage = d.stage := by
    rw [Desk.receive]
    split <;> exact ⟨rfl, rfl, rfl, rfl⟩
  refine ⟨⟨log, hcrewed.ask rfl (by simp) (by simp)⟩, by rw [hstate]; exact h.deaf,
    (hapart.now.trans h.now).trans hrest.1.symm, (hapart.habit.trans h.habit).trans hrest.2.1.symm,
    (hmemory.trans h.memory).trans hrest.2.2.1.symm, c.offer e, ?_, ?_, ?_⟩
  · rw [hstate, State.fanOut, List.getElem?_map, channel]
    rfl
  · rw [Desk.receive, Channel.offer, shows.isFull]
    split
    · exact shows
    · exact ⟨shows.capacity, congrArg (· ++ [e]) shows.accepted, shows.handed⟩
  · rw [State.work_offer, hrest.2.2.2]
    exact sits.apart hapart

structure Hears (k : Nat) (learn : μ → μ) (given : List σ) (w v : W) : Prop where
  executor : executor v = given.foldl Executor.signal (executor w)
  state : state v = state w
  habit : HasHabits.habit v k = HasHabits.habit w k
  memory : HasHabits.memory v k = learn (HasHabits.memory w k)

theorem Hears.frame {learn : μ → μ} {given : List σ} (h : Hears k learn given w v) :
    Frame w v ∧ now v = now w := by
  obtain ⟨u, hframe, hnow, hu⟩ := frame_signalAll w given
  have hsame := h.executor.trans hu.symm
  exact ⟨hframe.trans (.of_eq hsame (h.state.trans hframe.state.symm)),
    (congrArg Executor.now hsame).trans hnow⟩

theorem AtDesk.hear {learn : μ → μ} {given : List σ} (h : AtDesk base k w d)
    (hears : Hears k learn given w v) : AtDesk base k v (d.receive (.hear learn given)) := by
  obtain ⟨log, hcrewed⟩ := h.crewed
  obtain ⟨c, channel, shows, sits⟩ := h.channel
  obtain ⟨hframe, hnow⟩ := hears.frame
  refine ⟨⟨log, hcrewed.frame hframe⟩, by rw [hears.state]; exact h.deaf, hnow.trans h.now,
    hears.habit.trans h.habit, hears.memory.trans (congrArg learn h.memory), c,
    by rw [hears.state]; exact channel, ⟨shows.1, shows.2, shows.3⟩, ?_⟩
  change Sits _ _ _ c.work (d.stage.woken given)
  generalize c.work = x, d.stage = stage at sits
  cases sits with
  | free work => exact .free work
  | going job ready place =>
      exact .going ((hframe.job _ _).mpr job) (hframe.ready _ _ job ready)
        (hears.habit ▸ place)
  | @paused handler signals deadline job asleep place within ahead =>
      have hjob := (hframe.job _ _).mpr job
      have hplace : (HasHabits.habit v k).places handler := hears.habit ▸ place
      have hwoken := asleep.signalAll job.present (hcrewed.others _ _ job (by simp)) given
      rw [← hears.executor] at hwoken
      rw [Stage.woken]
      split at hwoken
      · rename_i hany
        rw [if_pos hany]
        exact .going hjob hwoken hplace
      · rename_i hnone
        rw [if_neg hnone]
        exact .paused hjob hwoken hplace (hears.habit ▸ within) (hnow ▸ ahead)

/-! ## The worker in its turn -/

structure Working (id : TaskId) (k : Nat) (x : Work) (w : W) (d : Desk σ η μ) : Prop where
  turn : (executor w).running = some id
  job : ∃ hand, Job w id (.worker k hand)
  unready : id ∉ (executor w).ready
  deaf : (state w).listener.isListening = false
  now : HasExecutor.now w = d.now
  habit : HasHabits.habit w k = d.habit
  memory : HasHabits.memory w k = d.memory
  channel : ∃ c, (state w).channels[k]? = some c ∧ c.work = x ∧ Shows d c

namespace Working

omit [DecidableEq σ] [Secluded W] in
theorem staged (h : Working id k x w d) (stage : Stage σ η) : Working id k x w { d with stage } :=
  have ⟨c, channel, work, shows⟩ := h.channel
  ⟨h.turn, h.job, h.unready, h.deaf, h.now, h.habit, h.memory, c, channel, work, shows.1, shows.2,
    shows.3⟩

omit [DecidableEq σ] [Secluded W] in
theorem quiet {m : μ} (h : Working id k x w d) (quiet : Quiet k w v)
    (memory : HasHabits.memory v k = m) : Working id k x v (d.withMemory m) := by
  obtain ⟨hand, job⟩ := h.job
  obtain ⟨c, channel, work, shows⟩ := h.channel
  have hapart := quiet.apart id
  exact ⟨(quiet.running id _ job).mpr h.turn, ⟨hand, hapart.job hand job⟩,
    quiet.unready id hand job h.turn h.unready, by rw [quiet.state]; exact h.deaf,
    hapart.now.trans h.now, hapart.habit.trans h.habit, memory, c,
    by rw [quiet.state]; exact channel, work, shows.1, shows.2, shows.3⟩

theorem gets_on {given : Input} {u : Desk σ η μ} {y : Work} {f : Channel → Channel}
    {effects : List Effect} (h : Working id k x w d) (own : given.worker? = some k)
    (step : (state w).step given = ((state w).modifyChannel k f, effects))
    (shows : ∀ c, Shows d c → (f c).work = y ∧ Shows u (f c))
    (now : u.now = d.now) (habit : u.habit = d.habit) (memory : u.memory = d.memory) :
    Working id k y (Hosting.input w given) u := by
  obtain ⟨c, channel, _, hshows⟩ := h.channel
  obtain ⟨hand, job⟩ := h.job
  have hplain (r : Receiver) : given ≠ .listen r := by
    rintro rfl
    cases own
  have hapart := apart_input w hplain k id
  have hstate : state (input w given) = (state w).modifyChannel k f := by rw [state_input, step]
  obtain ⟨hwork, hnext⟩ := shows c hshows
  refine ⟨(running_input w given).trans h.turn, ⟨hand, hapart.job hand job⟩,
    unready_input hplain job h.turn h.unready, by rw [hstate]; exact h.deaf,
    (hapart.now.trans h.now).trans now.symm, (hapart.habit.trans h.habit).trans habit.symm,
    ((memory_input w hplain k).trans h.memory).trans memory.symm, f c, ?_, hwork, hnext⟩
  simp [hstate, State.modifyChannel, channel]

theorem returns (h : Working id k .handling w d) (panic : Option String) :
    Working id k .idle (input w (.handled k panic)) d := by
  obtain ⟨c, channel, handling, _⟩ := h.channel
  exact h.gets_on rfl (State.step_handled channel handling panic)
    (fun c shows => ⟨rfl, shows.1, shows.2, shows.3⟩) rfl rfl rfl

theorem takes (h : Working id k .idle w d) (waiting : d.waiting = e :: rest) :
    Working id k .handling (input w (.take k)) { d with handed := d.handed + 1 } := by
  obtain ⟨c, channel, idle, shows⟩ := h.channel
  exact h.gets_on rfl (State.step_take channel idle (shows.waiting.trans waiting))
    (fun c shows => ⟨rfl, shows.1, shows.2, congrArg Nat.succ shows.3⟩) rfl rfl rfl

theorem finishes (h : Working id k .idle w d) (empty : d.waiting = [])
    (closed : (state w).isOpen = false) : Working id k .ended (input w (.finish k)) d := by
  obtain ⟨c, channel, idle, shows⟩ := h.channel
  have hstep : (state w).step (.finish k) =
      ((state w).modifyChannel k fun c => { c with work := .ended },
        [.signal (.workerOver k)]) := by
    simp [State.step, State.finish, channel, idle, shows.waiting, empty, closed]
  exact h.gets_on rfl hstep (fun c shows => ⟨rfl, shows.1, shows.2, shows.3⟩) rfl rfl rfl

omit [DecidableEq σ] [Secluded W] in
theorem waiting (h : Working id k x w d) : (state w).waiting k = d.waiting := by
  obtain ⟨c, channel, _, shows⟩ := h.channel
  exact (Circuit.waiting_eq channel).trans shows.waiting

end Working

variable (W) in
inductive Leaves (k : Nat) (d : Desk σ η μ) : Work → Rest σ τ → Prop
  | free {x : Work} {rest : Rest σ τ} (stage : d.stage = .free) (work : x ≠ .handling) :
      Leaves k d x rest
  | paused {handler : η} {signals : List σ} {deadline : Option Nat}
      (stage : d.stage = .paused handler signals deadline) (place : d.habit.places handler)
      (within : ∀ s ∈ signals, d.habit.signals s)
      (ahead : ∀ time, deadline = some time → d.now < time) :
      Leaves k d .handling
        (.waiting (Hosting.toTask W (.worker k (some handler))) signals deadline)

def Done (id : TaskId) (k : Nat) (r : W × Rest σ τ) (d : Desk σ η μ) : Prop :=
  ∃ x, Working id k x r.1 d ∧ Leaves W k d x r.2

omit [DecidableEq σ] [Secluded W] in
theorem Working.frees (h : Working id k x w d) (work : x ≠ .handling) (rest : Rest σ τ) :
    Done id k (w, rest) { d with stage := .free } :=
  ⟨x, h.staged .free, .free rfl work⟩

omit [DecidableEq σ] [Secluded W] in
theorem Working.pauses {next : η} {signals : List σ} {deadline : Option Nat} {m : μ}
    (h : Working id k .handling w d) (place : d.habit.places handler)
    (waits : (d.habit.run d.now m handler).2 = .waiting next signals deadline) :
    Done id k (w, .waiting (Hosting.toTask W (.worker k (some next))) signals deadline)
      { d with stage := .paused next signals deadline } := by
  refine ⟨.handling, h.staged _, .paused rfl (d.habit.run_places place waits)
    (d.habit.run_signals place waits) fun time hdeadline => ?_⟩
  subst hdeadline
  exact d.habit.run_ahead place waits

theorem Working.rests (h : Working id k .idle w d) (empty : d.waiting = []) :
    ∃ r : W × Rest σ τ, Handling.next w k = (r.1, .inr r.2) ∧
      Done id k r { d with stage := .free } := by
  have hempty := h.waiting.trans empty
  cases hopen : (state w).isOpen with
  | true =>
      refine ⟨(w, waitFor (W := W) (.worker k none) [.queue k]), ?_, h.frees (by simp) _⟩
      simp [Handling.next, hempty, hopen]
  | false =>
      refine ⟨(input w (.finish k), .ended), ?_, (h.finishes empty hopen).frees (by simp) _⟩
      simp [Handling.next, hempty, hopen]

theorem Working.handsOn (h : Working id k .idle w d) (waiting : d.waiting = e :: rest) :
    ∃ v, Handling.next w k = (v, .inl (d.place e)) ∧ Working id k .handling v (d.next e) := by
  have htakes := h.takes waiting
  have hcalled := Secluded.called (input w (.take k)) k e
  rw [htakes.habit, htakes.now, htakes.memory] at hcalled
  obtain ⟨hmemory, hplace⟩ := Prod.ext_iff.mp hcalled
  refine ⟨_, ?_, htakes.quiet (Secluded.quiet_call _ k e k) hmemory⟩
  rw [next_of_waiting (h.waiting.trans waiting)]
  exact congrArg (fun place => (_, Sum.inl place)) hplace

theorem Working.runs (h : Working id k .handling w d) (place : d.habit.places handler) :
    ∃ v m result, Handling.runHandler w k handler = (v, result) ∧
      d.habit.run d.now d.memory handler = (m, result) ∧
      Working id k .handling v (d.withMemory m) := by
  have hran := Secluded.ran w k handler (h.habit ▸ place)
  rw [h.habit, h.now, h.memory] at hran
  exact ⟨_, _, _, rfl, hran.symm, h.quiet (Secluded.quiet_run w k handler k) rfl⟩

theorem Working.serve (fuel : Nat) (h : Working id k .handling w d)
    (place : d.habit.places handler) :
    Done id k (Handling.serve k fuel w handler) (d.serve fuel handler) := by
  induction fuel generalizing w d handler with
  | zero =>
      obtain ⟨v, m, result, hresult, hrun, hran⟩ := h.runs place
      rw [Handling.serve, Desk.serve, hresult, hrun]
      cases result with
      | waiting next signals deadline => exact hran.pauses place (congrArg Prod.snd hrun)
      | ended panic =>
          have hfrees := (hran.returns panic).frees (by simp)
            (.yielding (Hosting.toTask W (.worker k none)))
          cases d.waiting <;> exact hfrees
  | succ fuel ih =>
      obtain ⟨v, m, result, hresult, hrun, hran⟩ := h.runs place
      rw [Handling.serve, Desk.serve, hresult, hrun]
      cases result with
      | waiting next signals deadline => exact hran.pauses place (congrArg Prod.snd hrun)
      | ended panic =>
          have hreturned := hran.returns panic
          dsimp only
          cases hwaiting : d.waiting with
          | nil =>
              obtain ⟨r, hnext, hdone⟩ := hreturned.rests hwaiting
              rw [hnext]
              exact hdone
          | cons e rest =>
              obtain ⟨u, hnext, hhanded⟩ := hreturned.handsOn hwaiting
              rw [hnext]
              exact ih hhanded (d.habit.call_places _ _ e)

theorem Done.left {r : W × Rest σ τ} {log : List (Nat × Event)} (h : Done (base + k) k r d)
    (crewed : Crewed base none log (update r.1 (·.left (base + k) r.2))) :
    AtDesk base k (update r.1 (·.left (base + k) r.2)) d := by
  obtain ⟨x, hworking, hleaves⟩ := h
  obtain ⟨c, channel, rfl, shows⟩ := hworking.channel
  obtain ⟨hand, job⟩ := hworking.job
  have hexecutor : executor (update r.1 (·.left (base + k) r.2)) =
      (executor r.1).left (base + k) r.2 := executor_update r.1 _
  have hnow : now (update r.1 (·.left (base + k) r.2)) = d.now := by
    rw [now, hexecutor, (Executor.keeps_left hworking.turn r.2).now]
    exact hworking.now
  have hhabit := (habit_update r.1 (·.left (base + k) r.2) k).trans hworking.habit
  refine ⟨⟨log, crewed⟩, by rw [state_update]; exact hworking.deaf, hnow, hhabit,
    (memory_update r.1 _ k).trans hworking.memory, c, by rw [state_update]; exact channel, shows,
    ?_⟩
  generalize c.work = x at hleaves
  generalize hrest : r.2 = rest at hleaves hexecutor hnow hhabit ⊢
  cases hleaves with
  | free stage work =>
      rw [stage]
      exact .free work
  | paused stage place within ahead =>
      rw [stage]
      refine .paused ?_ ?_ (hhabit ▸ place) (hhabit ▸ within) (hnow ▸ ahead)
      · rw [Job, hexecutor]
        exact Executor.task?_left job.present _
      · rw [hexecutor]
        exact Executor.asleep_suspend hworking.unready _ _ _

theorem Working.turn_some (h : Working id k .handling w d) (stage : d.stage = .going handler)
    (place : d.habit.places handler) :
    Done id k (Handling.turn w (.worker k (some handler))) d.turn := by
  rw [Handling.turn, h.waiting, Desk.turn, stage]
  exact h.serve _ place

theorem Working.turn_none (h : Working id k .idle w d) (stage : d.stage = .free) :
    Done id k (Handling.turn w (.worker k none)) d.turn := by
  have hsame : { d with stage := .free } = d := by rw [← stage]
  rw [Handling.turn, h.waiting, Desk.turn, stage]
  cases hwaiting : d.waiting with
  | nil =>
      obtain ⟨r, hnext, hdone⟩ := h.rests hwaiting
      rw [hnext]
      rwa [hsame] at hdone
  | cons e rest =>
      obtain ⟨v, hnext, hhanded⟩ := h.handsOn hwaiting
      rw [hnext]
      exact hhanded.serve _ (d.habit.call_places _ _ e)

theorem AtDesk.called {hand : Option η} (h : AtDesk base k w d)
    (job : Job w (base + k) (.worker k hand)) :
    ∃ x, (state w).workOf k = some x ∧ Sits w (base + k) k x d.stage ∧
      Working (base + k) k x (update w (·.call (base + k))) d := by
  obtain ⟨c, channel, shows, sits⟩ := h.channel
  have hexecutor : executor (update w (·.call (base + k))) = (executor w).call (base + k) :=
    executor_update w _
  refine ⟨c.work, by rw [State.workOf, channel]; rfl, sits, by rw [hexecutor]; rfl, ⟨hand, ?_⟩, ?_,
    by rw [state_update]; exact h.deaf, (now_update w _).trans h.now,
    (habit_update w _ k).trans h.habit, (memory_update w _ k).trans h.memory, c,
    by rw [state_update]; exact channel, rfl, shows⟩
  · rw [Job, hexecutor]
    exact job
  · rw [hexecutor]
    exact Executor.unready_call _ _

theorem AtDesk.turn {p : Program η} (h : AtDesk base k w d) (rests : (executor w).running = none)
    (queued : base + k ∈ (executor w).ready) (job : Job w (base + k) p) :
    AtDesk base k (update (Handling.turn (update w (·.call (base + k))) p).1
      (·.left (base + k) (Handling.turn (update w (·.call (base + k))) p).2)) d.turn := by
  obtain ⟨log, hcrewed⟩ := h.crewed
  have hturned := hcrewed.turn rests job
  suffices hdone : Done (base + k) k (Handling.turn (update w (·.call (base + k))) p) d.turn from
    hdone.left hturned
  cases p with
  | listener => exact absurd job (h.no_listener _)
  | worker j hand =>
      obtain rfl : k = j := Nat.add_left_cancel (hcrewed.placed _ j hand job).1
      obtain ⟨x, hwork, hsits, hworking⟩ := h.called job
      have hstands := hcrewed.stands k x hwork (by simp)
      -- The stage and the work of the channel say which task the worker is.
      generalize hstage : d.stage = stage at hsits
      cases hsits with
      | going worker _ place =>
          cases job.unique worker
          exact hworking.turn_some hstage (h.habit ▸ place)
      | paused _ asleep => exact absurd queued asleep.unready
      | free work =>
          cases hstands with
          | handling => exact absurd rfl work
          | ended absent => exact absurd job (absent hand)
          | idle worker =>
              cases job.unique worker
              exact hworking.turn_none hstage

end Lifecycle.Subscribers.Hosting
