import Lifecycle.Proofs.Subscribers.Duties

/-!
# Runs of a world that hosts a subscriber set

The set is started in a world in which it has no tasks.  Then users may do what is allowed, the
tasks of the set have their turns in any order, and some task may shut the set down: it asks what
is still to be waited for, and waits for it.
-/

namespace Lifecycle.Subscribers.Hosting

open HasExecutor

variable {W σ τ η : Type} {base k n : Nat} {id : TaskId}
  {subs : List (String × Nat)} {log more : List (Nat × Event)} {program : τ}

/-! ## The first workers -/

section Start

variable [Hosting W σ τ η] {v w : W}

structure Fresh (subs : List (String × Nat)) (w : W) : Prop where
  state : Hosting.state w = { channels := subs.map fun s => Channel.ofCapacity s.1 s.2 }
  numbered : (executor w).Numbered
  jobs : ∀ id p, ¬Job w id p
  free : ∀ id s, s.isOver = true → ¬Awaits w id s

structure Started (n : Nat) (w v : W) : Prop where
  state : Hosting.state v = Hosting.state w
  numbered : (executor v).Numbered
  nextTask : (executor v).nextTask = (executor w).nextTask + n
  running : (executor v).running = (executor w).running
  job : ∀ id p, Job v id p ↔ ∃ k < n, id = (executor w).nextTask + k ∧ p = .worker k none
  ready : ∀ k < n, (executor w).nextTask + k ∈ (executor v).ready
  free : ∀ id s, s.isOver = true → ¬Awaits v id s

theorem Fresh.started_zero (h : Fresh subs w) : Started 0 w w where
  state := rfl
  numbered := h.numbered
  nextTask := rfl
  running := rfl
  job id p := by simp [h.jobs id p]
  ready := nofun
  free := h.free

variable [LawfulHosting W]

theorem Started.spawn (h : Started n w v) :
    Started (n + 1) w (HasExecutor.spawn v (Hosting.toTask W (.worker n none))) := by
  have hexecutor : executor (HasExecutor.spawn v (Hosting.toTask W (.worker n none))) =
      (executor v).spawn (Hosting.toTask W (.worker n none)) := executor_update v _
  have hnew : Job (HasExecutor.spawn v (Hosting.toTask W (.worker n none)))
      ((executor w).nextTask + n) (.worker n none) := by
    rw [Job, hexecutor, ← h.nextTask]
    exact Executor.task?_spawn h.numbered _
  refine ⟨(state_update v _).trans h.state, ?_, ?_, ?_, fun id p => ?_, fun k hk => ?_,
    fun id s isOver awaits => ?_⟩
  · rw [hexecutor]
    exact Executor.numbered_spawn h.numbered _
  · rw [hexecutor]
    exact congrArg Nat.succ h.nextTask
  · rw [hexecutor]
    exact h.running
  · by_cases hid : id = (executor w).nextTask + n
    · subst hid
      constructor
      · exact fun job => ⟨n, Nat.lt_succ_self n, rfl, job.unique hnew⟩
      · rintro ⟨k, _, hk, rfl⟩
        rwa [← Nat.add_left_cancel hk]
    · have hne : id ≠ (executor v).nextTask := by rwa [h.nextTask]
      rw [Job, hexecutor, Executor.task?_spawn_ne _ hne]
      refine (h.job id p).trans ⟨?_, ?_⟩
      · rintro ⟨k, hk, job⟩
        exact ⟨k, Nat.lt_succ_of_lt hk, job⟩
      · rintro ⟨k, hk, rfl, rfl⟩
        refine ⟨k, Nat.lt_of_le_of_ne (Nat.le_of_lt_succ hk) ?_, rfl, rfl⟩
        rintro rfl
        exact hid rfl
  · rw [hexecutor]
    rcases Nat.lt_succ_iff_lt_or_eq.mp hk with hlt | rfl
    · exact List.mem_append_left _ (h.ready k hlt)
    · rw [← h.nextTask]
      exact List.mem_append_right _ (List.mem_singleton_self _)
  · rw [Awaits, hexecutor] at awaits
    exact h.free id s isOver awaits

theorem Fresh.started (h : Fresh subs w) :
    Started subs.length w (Hosting.start w) := by
  have hfold (n : Nat) : Started n w ((List.range n).foldl
      (fun w k => HasExecutor.spawn w (Hosting.toTask W (.worker k none))) w) := by
    induction n with
    | zero => exact h.started_zero
    | succ n ih =>
        rw [List.range_succ, List.foldl_append]
        exact ih.spawn
  have hlength : (Hosting.state w).channels.length = subs.length := by rw [h.state, List.length_map]
  rw [Hosting.start, hlength]
  exact hfold subs.length

theorem Fresh.crewed (h : Fresh subs w) :
    Crewed (executor w).nextTask none [] (Hosting.start w) := by
  have hstarted := h.started
  have hstate := hstarted.state.trans h.state
  have hlength : (Hosting.state (Hosting.start w)).channels.length = subs.length := by
    rw [hstate, List.length_map]
  have hfresh (k : Nat) (c : Channel)
      (channel : (Hosting.state (Hosting.start w)).channels[k]? = some c) :
      c.work = .idle ∧ c.handed = 0 := by
    rw [hstate, List.getElem?_map] at channel
    obtain ⟨s, _, rfl⟩ := Option.map_eq_some_iff.mp channel
    exact ⟨rfl, rfl⟩
  have hnone (id : TaskId) : ¬Job (Hosting.start w) id .listener := by
    intro job
    obtain ⟨k, _, _, hk⟩ := (hstarted.job id _).mp job
    cases hk
  refine ⟨?_, hstarted.numbered, ?_, nofun, fun id p job _ running => ?_, fun id k hand job => ?_,
    fun k x work _ => ?_, fun id job => absurd job (hnone id), fun hlistening => ?_,
    fun id _ job => absurd job (hnone id), fun id job => absurd job (hnone id),
    fun id s isOver awaits => absurd awaits (hstarted.free id s isOver), fun k c channel => ?_⟩
  · rw [hstate]
    exact Circuit.sound_ofSubscribers (Bus.ofCapacity 1) subs
  · exact Nat.le_of_eq (by rw [hlength, hstarted.nextTask])
  · rw [hstarted.running] at running
    obtain ⟨k, _, rfl, _⟩ := (hstarted.job id p).mp job
    exact Nat.not_lt_of_le (Nat.le_add_right _ k) (h.numbered.running _ running)
  · obtain ⟨j, hj, rfl, hk⟩ := (hstarted.job id _).mp job
    cases hk
    exact ⟨rfl, hlength ▸ hj⟩
  · obtain ⟨c, hc, hx⟩ := Option.map_eq_some_iff.mp work
    obtain rfl : x = .idle := hx.symm.trans (hfresh k c hc).1
    have hlt : k < subs.length := hlength ▸ (List.getElem?_eq_some_iff.mp hc).1
    exact .idle ((hstarted.job _ _).mpr ⟨k, hlt, rfl, rfl⟩) (.inl (hstarted.ready k hlt))
  · rw [hstate] at hlistening
    cases hlistening
  · rw [(hfresh k c channel).2]
    rfl

end Start

/-! ## Shutting down -/

section ShutDown

variable [Hosting W σ τ η] {v w : W}

def Suspended (w : W) (id : TaskId) : Prop := ∃ s : Signal, s.isOver = true ∧ Awaits w id s

variable [DecidableEq σ]

/-- A task that shuts the set down goes on with that in its turn, and waits if it is not over. -/
def close (w : W) (id : TaskId) (program : τ) : W :=
  match shutDown w with
  | (w, []) => w
  | (w, signals) =>
      update w (·.left id (.waiting program (signals.map (Hosting.toSignal W)) none))

variable [LawfulHosting W]

theorem Crewed.shutDown (h : Crewed base none log w) :
    Crewed base none log (Hosting.shutDown w).1 ∧
      (∀ s ∈ (Hosting.shutDown w).2, s.isOver = true ∧ (state (Hosting.shutDown w).1).Pending s) ∧
      ((Hosting.shutDown w).2 = [] → (state (Hosting.shutDown w).1).isOpen = false ∧
        (state (Hosting.shutDown w).1).unfinished? = none) := by
  obtain ⟨v, hv, hcrewed, hstopping⟩ : ∃ v,
      (if (state w).stopping then w else Hosting.input w .stop) = v ∧
        Crewed base none log v ∧ (state v).stopping = true := by
    split
    · exact ⟨w, rfl, h, ‹_›⟩
    · exact ⟨_, rfl, h.plain rfl (by simp) (by simp), by rw [state_input]; rfl⟩
  cases hlistening : (state v).listener.isListening with
  | true =>
      have hdown : Hosting.shutDown w = (v, [.listenerOver]) := by
        rw [Hosting.shutDown, hv, hlistening]
        rfl
      rw [hdown]
      refine ⟨hcrewed, fun s mem => ?_, (by simp)⟩
      cases List.mem_singleton.mp mem
      exact ⟨rfl, hlistening, hstopping⟩
  | false =>
      have hdown : Hosting.shutDown w = (Hosting.input v .release,
          ((state (Hosting.input v .release)).unfinished?.map .workerOver).toList) := by
        rw [Hosting.shutDown, hv, hlistening]
        rfl
      have hclosed : (state (Hosting.input v .release)).isOpen = false := by
        rw [state_input, State.step, State.release]
        split <;> simp_all [State.isOpen]
      have hreleased : Crewed base none log (Hosting.input v .release) :=
        hcrewed.plain rfl (by simp) (by simp)
      rw [hdown]
      refine ⟨hreleased, fun s mem => ?_, fun ended => ⟨hclosed, ?_⟩⟩
      · obtain ⟨k, hk, rfl⟩ := Option.map_eq_some_iff.mp (Option.mem_toList.mp mem)
        exact ⟨rfl, State.pending_of_unfinished hclosed hk⟩
      · exact Option.map_eq_none_iff.mp (Option.toList_eq_nil_iff.mp ended)

omit [LawfulHosting W] in
theorem shutDown_keeps {P : W → Prop} (first : P w) (stop : ∀ v, P v → P (Hosting.input v .stop))
    (release : ∀ v, P v → P (Hosting.input v .release)) : P (Hosting.shutDown w).1 := by
  rw [Hosting.shutDown]
  repeat' split
  · exact first
  · exact release w first
  · exact stop w first
  · exact release _ (stop w first)

theorem beside_shutDown (w : W) :
    Beside w (Hosting.shutDown w).1 ∧
      (executor (Hosting.shutDown w).1).running = (executor w).running := by
  have hinput (given : Input) (no_task : ∀ r, given ≠ .listen r) (v : W)
      (h : Beside w v ∧ (executor v).running = (executor w).running) :
      Beside w (Hosting.input v given) ∧
        (executor (Hosting.input v given)).running = (executor w).running :=
    ⟨h.1.trans (tells_input v given (State.startListener_not_mem_step no_task)).toBeside,
      (running_input v given).trans h.2⟩
  exact shutDown_keeps ⟨.refl w, rfl⟩ (hinput .stop (by simp)) (hinput .release (by simp))

theorem Crewed.suspends (h : Crewed base none log w) (signals : List Signal)
    (turn : (executor w).running = some id) (apart : ∀ p, ¬Job w id p)
    (other : ∀ p, program ≠ Hosting.toTask W p) (pending : ∀ s ∈ signals, (state w).Pending s) :
    Crewed base none log (update w (·.left id
      (.waiting program (signals.map (Hosting.toSignal W)) none))) := by
  have hexecutor := executor_update w
    (·.left id (.waiting program (signals.map (Hosting.toSignal W)) none))
  have hjob (p : Program η) : ¬Job (update w (·.left id
      (.waiting program (signals.map (Hosting.toSignal W)) none))) id p := by
    intro job
    rw [Job, hexecutor] at job
    exact other p (Option.some.inj (Executor.program?_of_left job))
  refine h.passed id ?_ ?_ (state_update w _) (fun other s isOver awaits => ?_) (by simp) (by simp)
    (by simp) (fun _ => ?_) (fun k hand job => absurd job (hjob _)) (fun k x hid hwork _ => ?_)
    (fun job => absurd job (hjob _)) fun _ job => absurd job (apart _)
  · rw [hexecutor]
    exact Executor.keeps_left turn _
  · rw [hexecutor, Executor.nextTask_left]
  · rw [Awaits, hexecutor] at awaits
    rcases List.mem_append.mp awaits with hkept | hnew
    · exact .inl (List.mem_filter.mp hkept).1
    · obtain ⟨a, ha, heq⟩ := List.mem_map.mp (List.mem_filter.mp hnew).1
      obtain ⟨s', hs', rfl⟩ := List.mem_map.mp ha
      have hsame := LawfulHosting.toSignal_injective s' s (Prod.mk.inj heq).1
      exact .inr (hsame ▸ pending s' hs')
  · rw [hexecutor, Executor.running_left]
    exact (by simp)
  · -- The worker with this number has ended before.
    subst hid
    cases h.stands k x hwork (by simp) with
    | idle job | handling job => exact absurd job (apart _)
    | ended => exact .ended fun hand => hjob _

theorem Crewed.close (h : Crewed base none log w) (turn : (executor w).running = some id)
    (apart : ∀ p, ¬Job w id p) (other : ∀ p, program ≠ Hosting.toTask W p) :
    Crewed base none log (Hosting.close w id program) := by
  obtain ⟨hcrewed, hpending, _⟩ := h.shutDown
  obtain ⟨hbeside, hrunning⟩ := beside_shutDown w
  rw [Hosting.close]
  generalize Hosting.shutDown w = result at hcrewed hpending hbeside hrunning
  obtain ⟨v, signals⟩ := result
  cases signals with
  | nil => exact hcrewed
  | cons s rest =>
      exact hcrewed.suspends (s :: rest) (hrunning.trans turn)
        (fun p job => apart p ((hbeside.job id p).mp job)) other fun s mem => (hpending s mem).2

end ShutDown

/-! ## Every run -/

section Run

variable [DecidableEq σ] [Handling W σ τ η] {u v w start : W} {p : Program η}

/-- What can happen next, and the events that are handed to subscribers by it.  The listener may
stop later than it does when it passes on what it receives. -/
inductive Happens : W → List (Nat × Event) → W → Prop
  | conduct {w v : W} (conduct : Conduct w v) : Happens w [] v
  | turn {w : W} {id : TaskId} {p : Program η} (rests : (executor w).running = none)
      (queued : id ∈ (executor w).ready) (job : Job w id p) :
      Happens w (served (update w (·.call id)) p)
        (update (Handling.turn (update w (·.call id)) p).1
          (·.left id (Handling.turn (update w (·.call id)) p).2))
  | overhear {w v : W} {id : TaskId} {rest : Rest σ τ} (rests : (executor w).running = none)
      (queued : id ∈ (executor w).ready) (job : Job w id .listener)
      (overhears : Overhears (update w (·.call id)) v rest) :
      Happens w [] (update v (·.left id rest))
  | close {w : W} {id : TaskId} {program : τ} (turn : (executor w).running = some id)
      (apart : ∀ p, ¬Job w id p) (other : ∀ p, program ≠ Hosting.toTask W p) :
      Happens w [] (close w id program)

inductive Run : W → List (Nat × Event) → W → Prop
  | done (w : W) : Run w [] w
  | next {w v u : W} {log more : List (Nat × Event)} (run : Run w log v)
      (happens : Happens v more u) : Run w (log ++ more) u

theorem Run.of_happens (happens : Happens w log v) : Run w log v := .next (.done w) happens

theorem Run.trans (h₁ : Run w log v) (h₂ : Run v more u) : Run w (log ++ more) u := by
  induction h₂ with
  | done => rwa [List.append_nil]
  | next _ happens ih =>
      rw [← List.append_assoc]
      exact .next ih happens

variable [LawfulHandling W]

theorem Crewed.serves {hand : Option η} (h : Crewed base none log w)
    (rests : (executor w).running = none) (job : Job w (base + k) (.worker k hand)) :
    Served base k (log ++ served (update w (·.call (base + k))) (.worker k hand))
      (Handling.turn (update w (·.call (base + k))) (.worker k hand)) := by
  have hcalled := h.call rests job
  have hjob : Job (update w (·.call (base + k))) (base + k) (.worker k hand) := by
    rw [Job, executor_update]
    exact job
  obtain ⟨x, hwork⟩ := workOf_isSome_iff.mpr (h.placed _ k hand job).2
  have hwork' : (state (update w (·.call (base + k)))).workOf k = some x := by
    rw [state_update]
    exact hwork
  cases h.stands k x hwork (by simp) with
  | idle job' =>
      cases job.unique job'
      exact AtWork.turn_none ⟨hcalled, ⟨_, hjob⟩, hwork'⟩
  | handling job' =>
      cases job.unique job'
      exact AtWork.serve ⟨hcalled, ⟨_, hjob⟩, hwork'⟩ _ _
  | ended absent => exact absurd job (absent hand)

theorem Crewed.overhear {rest : Rest σ τ} (h : Crewed base none log w)
    (rests : (executor w).running = none) (job : Job w id .listener)
    (overhears : Overhears (update w (·.call id)) v rest) :
    Crewed base none log (update v (·.left id rest)) := by
  have hear : AtEar base id log (update w (·.call id)) := by
    refine ⟨h.call rests job, ?_⟩
    rw [Job, executor_update]
    exact job
  obtain ⟨hheard, hhushes⟩ := hear.overhears overhears
  exact hheard.leaves hhushes

theorem Crewed.turn (h : Crewed base none log w) (rests : (executor w).running = none)
    (job : Job w id p) :
    Crewed base none (log ++ served (update w (·.call id)) p)
      (update (Handling.turn (update w (·.call id)) p).1
        (·.left id (Handling.turn (update w (·.call id)) p).2)) := by
  cases p with
  | listener =>
      rw [served, List.append_nil]
      exact h.overhear rests job (overhears_passOn _ _)
  | worker k hand =>
      obtain rfl := (h.placed id k hand job).1
      obtain ⟨y, hatWork, hparks⟩ := h.serves rests job
      exact hatWork.leaves hparks

theorem Crewed.happens (h : Crewed base none log w) (happens : Happens w more v) :
    Crewed base none (log ++ more) v := by
  cases happens with
  | conduct conduct =>
      rw [List.append_nil]
      exact h.conduct conduct
  | turn rests _ job => exact h.turn rests job
  | overhear rests _ job overhears =>
      rw [List.append_nil]
      exact h.overhear rests job overhears
  | close turn apart other =>
      rw [List.append_nil]
      exact h.close turn apart other

theorem Fresh.run (fresh : Fresh subs start) (run : Run (Hosting.start start) log w) :
    Crewed (executor start).nextTask none log w := by
  generalize hstarted : Hosting.start start = first at run
  induction run with
  | done => exact hstarted ▸ fresh.crewed
  | next _ happens ih => exact ih.happens happens

end Run

end Lifecycle.Subscribers.Hosting
