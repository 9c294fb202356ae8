import Lifecycle.Proofs.Hosting.Run

/-!
# From one place of rest to the next

Between two turns no task of the gate is under way.  A turn takes the gate from one such place to
the next; on the way the gate is given inputs, and what they do is all that happens to it.
-/

namespace Lifecycle.Gate

namespace State

variable {γ κ : Type} {input : Input γ κ} {asks more : List (Input γ κ)}

def Ordinary (asks : List (Input γ κ)) (input : Input γ κ) : Prop :=
  input ∈ asks ∧ input.isRequest = true ∨ input.isErrand = true

theorem Ordinary.of_tail {first : Input γ κ} (h : Ordinary asks input) :
    Ordinary (first :: asks) input :=
  h.imp_left (And.imp_left (List.mem_cons_of_mem first))

variable [Inhabited κ] {s t u : State γ κ}

/-- Users ask for the given things in turn, and in between the tasks of the hooks do their
errands. -/
inductive Path : State γ κ → List (Input γ κ) → State γ κ → Prop
  | done (s : State γ κ) : Path s [] s
  | ask {s t : State γ κ} {request : Input γ κ} {asks : List (Input γ κ)} (accepts : γ → Bool)
      (isRequest : request.isRequest = true) (admitted : s.admits request = true)
      (rest : Path (s.step accepts request).1 asks t) : Path s (request :: asks) t
  | errand {s t : State γ κ} {input : Input γ κ} {asks : List (Input γ κ)} (accepts : γ → Bool)
      (isErrand : input.isErrand = true) (admitted : s.admits input = true)
      (rest : Path (s.step accepts input).1 asks t) : Path s asks t

theorem Path.trans (h₁ : Path s asks t) (h₂ : Path t more u) : Path s (asks ++ more) u := by
  induction h₁ with
  | done s => exact h₂
  | ask accepts isRequest admitted _ ih => exact .ask accepts isRequest admitted (ih h₂)
  | errand accepts isErrand admitted _ ih => exact .errand accepts isErrand admitted (ih h₂)

theorem Path.keep {P : State γ κ → Prop} (h : Path s asks t)
    (step : ∀ {accepts : γ → Bool} {input : Input γ κ} {s t : State γ κ}
      {effects : List (Effect γ κ)}, P s → Move accepts s input t effects →
        s.admits input = true → Ordinary asks input → P t)
    (start : P s) : P t := by
  induction h with
  | done s => exact start
  | @ask s t request asks accepts isRequest admitted _ ih =>
      have hmove : Move accepts s request _ _ := step_move s request
      have hfirst := step start hmove admitted (.inl ⟨List.mem_cons_self, isRequest⟩)
      exact ih (fun kept move admitted ordinary => step kept move admitted ordinary.of_tail) hfirst
  | @errand s t input asks accepts isErrand admitted _ ih =>
      have hmove : Move accepts s input _ _ := step_move s input
      exact ih step (step start hmove admitted (.inr isErrand))

theorem Path.exists_run (h : Path s asks t) : ∃ occasions, s.orderly occasions = true ∧
    (s.run occasions).1 = t ∧ requests occasions = asks := by
  induction h with
  | done s => exact ⟨[], rfl, rfl, rfl⟩
  | ask accepts isRequest admitted _ ih =>
      obtain ⟨occasions, horderly, hrun, hasks⟩ := ih
      refine ⟨⟨_, accepts⟩ :: occasions, (orderly_cons _ _ _).mpr ⟨admitted, horderly⟩, hrun, ?_⟩
      rw [requests, List.map_cons, List.filter_cons_of_pos isRequest, ← requests, hasks]
  | errand accepts isErrand admitted _ ih =>
      obtain ⟨occasions, horderly, hrun, hasks⟩ := ih
      refine ⟨⟨_, accepts⟩ :: occasions, (orderly_cons _ _ _).mpr ⟨admitted, horderly⟩, hrun, ?_⟩
      rw [requests, List.map_cons,
        List.filter_cons_of_neg (Bool.eq_false_iff.mp (isRequest_of_errand isErrand)), ← requests,
        hasks]

end State

namespace Hosting

open HasExecutor
open State (Paced Manned Move Path)

variable {W σ τ γ κ η : Type} [Inhabited κ] [Hosting W σ τ γ κ η]
  {u v w : W} {since begun last : Nat} {asks more : List (Input γ κ)} {hand next : Option Mark}
  {id : TaskId} {t : Task η}

structure Reaches (w : W) (since : Nat) (asks : List (Input γ κ)) (v : W) (begun : Nat) : Prop
    extends Later w since v begun where
  path : Path (state w) asks (state v)

namespace Reaches

theorem of_eq (state : state v = state w) (now : now v = now w) : Reaches w since [] v since where
  toLater := .of_epoch (Nat.le_of_eq now.symm) (by rw [state])
  path := by rw [state]; exact .done _

theorem refl (w : W) (since : Nat) : Reaches w since [] w since := of_eq rfl rfl

theorem trans (h₁ : Reaches w since asks v begun) (h₂ : Reaches v begun more u last) :
    Reaches w since (asks ++ more) u last where
  toLater := h₁.toLater.trans h₂.toLater
  path := h₁.path.trans h₂.path

theorem then_done (h₁ : Reaches w since asks v begun) (h₂ : Reaches v begun [] u last) :
    Reaches w since asks u last := by
  simpa using h₁.trans h₂

end Reaches

/-- The crew is provided for, and no task of the gate has its turn. -/
structure Steady (w : W) (since : Nat) : Prop extends Provided w since [] none where
  settled : ∀ id t, ¬Holds w id t

/-! ## Inputs and requests -/

section Inputs

variable [DecidableEq σ] [LawfulHosting W]

theorem Linked.reaches {input : Input γ κ} (next : Option Mark) (h : Linked w [] hand)
    (window : (state (Hosting.input w input)).phase = .draining →
      (state w).phase = .draining → Window w since [])
    (path : ∀ accepts, Path (state w) asks ((state w).step accepts input).1)
    (admitted : (state w).admits input = true)
    (called : ∀ m ∈ calls (Hosting.step w input).2, next = some m)
    (released : ∀ m, hand = some m → next = some m ∨
      ¬(state (Hosting.input w input)).Outstanding m) :
    ∃ begun, Provided (Hosting.input w input) begun [] next ∧
      Reaches w since asks (Hosting.input w input) begun := by
  obtain ⟨begun, hprovided, hlater⟩ := h.input window admitted called released
  refine ⟨begun, hprovided, hlater, ?_⟩
  obtain ⟨accepts, hstate, _⟩ := LawfulHosting.step w input
  rw [state_input, hstate]
  exact path accepts

theorem Provided.request {request : Input γ κ} (h : Provided w since [] hand)
    (isRequest : request.isRequest = true) (admitted : (state w).admits request = true) :
    ∃ begun, Provided (input w request) begun [] hand ∧
      Reaches w since [request] (input w request) begun := by
  apply h.toLinked.reaches hand (fun _ => h.window)
    (fun accepts => .ask accepts isRequest admitted (.done _)) admitted
  · obtain ⟨accepts, hmove⟩ := step_move w request
    have hcall : request.callsHook = false := by cases request <;> first | rfl | cases isRequest
    rw [hmove.calls_eq_nil hcall]
    nofun
  · exact fun _ => .inl

theorem Provided.conduct (h : Provided w since [] hand) (conduct : Conduct w asks v) :
    ∃ begun, Provided v begun [] hand ∧ Reaches w since asks v begun ∧
      ∀ id t, Holds v id t ↔ Holds w id t := by
  induction conduct generalizing since with
  | done w => exact ⟨since, h, .refl w since, fun _ _ => Iff.rfl⟩
  | aside frame _ ih =>
      obtain ⟨begun, hprovided, hreaches, hholds⟩ := ih (h.aside frame)
      have hfirst : Reaches _ since [] _ since := .of_eq frame.state frame.now
      refine ⟨begun, hprovided, hfirst.trans hreaches, fun id t => ?_⟩
      exact (hholds id t).trans (frame.holds_iff nofun)
  | ask isRequest admitted _ ih =>
      obtain ⟨mid, hasked, hfirst⟩ := h.request isRequest admitted
      obtain ⟨begun, hprovided, hreaches, hholds⟩ := ih hasked
      refine ⟨begun, hprovided, hfirst.trans hreaches, fun id t => ?_⟩
      exact (hholds id t).trans (holds_input h.numbered _)

end Inputs

/-! ## Beginning a turn -/

theorem Steady.crew (h : Steady w since) (task : job? w id = some t) : Crew w id t :=
  ⟨task, fun running => h.settled id t ⟨task, running⟩⟩

section Turn

variable [LawfulHosting W] {before after : List TaskId}

theorem job?_update {f : Executor σ τ → Executor σ τ} (w : W)
    (same : (f (executor w)).tasks = (executor w).tasks) (id : TaskId) :
    job? (update w f) id = job? w id := by
  rw [job?, job?, executor_update, Executor.task?, Executor.task?, same]

theorem holds_begin (task : job? w id = some t) (queue : List TaskId) :
    Holds (begin w id queue) id t := by
  refine ⟨(job?_update w rfl id).trans task, ?_⟩
  rw [begin, executor_update]

theorem Steady.frame_begin (h : Steady w since) (ready : (executor w).ready = before ++ id :: after)
    (task : job? w id = some t) : Frame (some id) w (begin w id (before ++ after)) where
  state := state_update w _
  timer := timer_update w _
  now := by rw [begin, now, executor_update]; rfl
  numbered numbered := by
    rw [begin, executor_update]
    refine ⟨numbered.tasks, fun other running => ?_⟩
    cases running
    exact numbered.tasks id (task?_isSome (by rw [task]; rfl))
  job other _ := job?_update w rfl other
  running other ne present := by
    obtain ⟨u, hu⟩ := Option.isSome_iff_exists.mp present
    rw [begin, executor_update]
    exact ⟨fun running => absurd running ne,
      fun running => absurd ⟨hu, running⟩ (h.settled other u)⟩
  ready other ne _ hready := by
    rw [begin, executor_update]
    rw [ready] at hready
    rcases List.mem_append.mp hready with hbefore | hafter
    · exact List.mem_append_left _ hbefore
    · rcases List.mem_cons.mp hafter with heq | hafter
      · exact absurd (congrArg some heq.symm) ne
      · exact List.mem_append_right _ hafter
  waits other a _ _ _ waits := by
    rw [begin, executor_update]
    exact .inl waits
  timers other deadline _ _ armed := by
    rw [begin, executor_update]
    exact armed

theorem Steady.linked_begin (h : Steady w since)
    (ready : (executor w).ready = before ++ id :: after) (task : job? w id = some t) :
    Linked (begin w id (before ++ after)) [] t.mark? := by
  have holds := holds_begin task (before ++ after)
  refine h.toLinked.extend (h.frame_begin ready task) ?_ (fun _ h => h) ?_ ?_ (fun _ h => h)
  · rintro m (hm | hm | ⟨other, u, hother, hu, hmark⟩)
    · cases hm
    · cases hm
    · cases hother
      cases Option.some.inj (hu.1.symm.trans task)
      exact .inr (.inl hmark)
  · intro other u hother hu
    cases hother
    exact absurd hu holds.not_crew
  · intro other job epoch hother hu
    cases hother
    exact absurd hu holds.not_crew

theorem Steady.provided_begin (h : Steady w since)
    (ready : (executor w).ready = before ++ id :: after) (task : job? w id = some t)
    (other : (state w).phase = .draining → ∀ job, t ≠ .grace job (some (state w).drainEpoch)) :
    Provided (begin w id (before ++ after)) since [] t.mark? := by
  have frame := h.frame_begin ready task
  have holds := holds_begin task (before ++ after)
  refine ⟨h.linked_begin ready task, fun draining => ?_⟩
  rw [frame.state] at draining
  refine (h.window draining).frame frame rfl ?_ ?_
  · intro k job hk hu
    cases hk
    exact absurd (Option.some.inj (task.symm.trans hu.1)) (other draining job)
  · intro k job hk hu
    cases hk
    exact absurd hu holds.not_crew

end Turn

end Hosting

end Lifecycle.Gate
