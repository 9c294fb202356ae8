import Lifecycle.Proofs.Hosting.Path

/-!
# The turns of the hooks

A turn begins with what the task is to bring about in hand.  It ends with the task in wait for the
same again, or with nothing left to do for the gate.
-/

namespace Lifecycle.Gate.Hosting

open HasExecutor
open State (Paced Manned Move)

section Turn

variable {W σ τ γ κ η : Type} [DecidableEq σ] [Inhabited κ] [Hosting W σ τ γ κ η]
  [LawfulHosting W] {v w : W} {since : Nat} {hand : Option Mark} {id : TaskId} {t u : Task η}
  {before after : List TaskId} {program : τ} {signals : List σ} {deadline : Option Nat}

/-! ## Ending a turn -/

theorem frame_retire (holds : Holds v id t) : Frame (some id) v (finish v id .ended) := by
  rw [finish]
  exact frame_update (Executor.keeps_retire holds.2)

theorem frame_suspend (holds : Holds v id t) (program : τ) (signals : List σ)
    (deadline : Option Nat) :
    Frame (some id) v (finish v id (.waiting program signals deadline)) := by
  rw [finish]
  exact frame_update (Executor.keeps_suspend holds.2 program signals deadline)

theorem crew_retire (v : W) (id : TaskId) (u : Task η) : ¬Crew (finish v id .ended) id u := by
  rintro ⟨hjob, _⟩
  rw [job?, finish, executor_update, Executor.task?_retire] at hjob
  cases hjob

theorem crew_suspend (holds : Holds v id t) (u : Task η) (signals : List σ)
    (deadline : Option Nat) {u' : Task η} :
    Crew (finish v id (.waiting (Hosting.toTask W u) signals deadline)) id u' ↔ u' = u := by
  have hpresent : ((executor v).task? id).isSome = true := task?_isSome (by rw [holds.1]; rfl)
  have hjob : job? (finish v id (.waiting (Hosting.toTask W u) signals deadline)) id = some u := by
    rw [job?, finish, executor_update, Executor.task?_suspend hpresent]
    exact LawfulHosting.ofTask_toTask u
  rw [Crew, hjob, finish, executor_update]
  constructor
  · exact fun h => (Option.some.inj h.1).symm
  · rintro rfl
    exact ⟨rfl, (Option.some_ne_none id).symm⟩

theorem idle_retire (v : W) (id other : TaskId) : ¬Holds (finish v id .ended) other u := by
  rintro ⟨_, hrunning⟩
  rw [finish, executor_update] at hrunning
  cases hrunning

theorem idle_suspend (v : W) (id other : TaskId) :
    ¬Holds (finish v id (.waiting program signals deadline)) other u := by
  rintro ⟨_, hrunning⟩
  rw [finish, executor_update] at hrunning
  cases hrunning

theorem Provided.retired (h : Provided v since [] hand) (holds : Holds v id t)
    (ended : ∀ m, hand = some m → ¬(state v).Outstanding m) :
    Steady (finish v id .ended) since := by
  have frame := frame_retire holds
  refine ⟨⟨h.toLinked.extend frame ?_ (fun _ h => h) ?_ ?_ (fun _ h => h), fun draining => ?_⟩,
    fun other u => idle_retire v id other⟩
  · rintro m (hm | hm | ⟨other, u, hother, hu, _⟩)
    · cases hm
    · exact .inr (.inr (.inr (ended m hm)))
    · cases hother
      exact absurd hu holds.not_crew
  · intro other u hother hu
    cases hother
    exact absurd hu (crew_retire v id u)
  · intro other job epoch hother hu
    cases hother
    exact absurd hu (crew_retire v id _)
  · rw [frame.state] at draining
    refine (h.window draining).frame frame rfl ?_ ?_
    · intro k job hk hu
      cases hk
      exact absurd hu holds.not_crew
    · intro k job hk hu
      cases hk
      exact absurd hu (crew_retire v id _)

theorem Linked.suspended (h : Linked v [] hand) (holds : Holds v id t) (mark : u.mark? = hand)
    (tended : Tended (finish v id (.waiting (Hosting.toTask W u) signals deadline)) [] id u)
    (epochs : ∀ job epoch, u = .grace job (some epoch) → epoch ≤ (state v).drainEpoch) :
    Linked (finish v id (.waiting (Hosting.toTask W u) signals deadline)) [] none := by
  have hcrew {u' : Task η} : Crew _ id u' ↔ u' = u := crew_suspend holds u signals deadline
  refine h.extend (frame_suspend holds _ _ _) ?_ (fun _ h => h) ?_ ?_ (fun _ h => h)
  · rintro m (hm | hm | ⟨other, u', hother, hu, _⟩)
    · cases hm
    · exact .inr (.inr (.inl ⟨id, u, rfl, hcrew.mpr rfl, mark.trans hm⟩))
    · cases hother
      exact absurd hu holds.not_crew
  · intro other u' hother hu
    cases hother
    rw [hcrew.mp hu]
    exact tended
  · intro other job epoch hother hu
    cases hother
    exact epochs job epoch (hcrew.mp hu).symm

theorem Provided.suspended {m : Mark} (h : Provided v since [] (some m)) (holds : Holds v id t)
    (mark : u.mark? = some m)
    (tended : Tended (finish v id (.waiting (Hosting.toTask W u) signals deadline)) [] id u) :
    Steady (finish v id (.waiting (Hosting.toTask W u) signals deadline)) since := by
  have hook {job : Debouncer.Job} {epoch : Nat} : u ≠ .grace job (some epoch) := by
    rintro rfl
    cases mark
  have frame := frame_suspend holds (Hosting.toTask W u) signals deadline
  refine ⟨⟨h.toLinked.suspended holds mark tended fun _ _ hu => absurd hu hook,
    fun draining => ?_⟩, fun other u => idle_suspend v id other⟩
  rw [frame.state] at draining
  refine (h.window draining).frame frame rfl ?_ ?_
  · intro k job hk hu
    cases hk
    exact absurd hu holds.not_crew
  · intro k job hk hu
    cases hk
    exact absurd ((crew_suspend holds u signals deadline).mp hu).symm hook

def Arrives (w : W) (since : Nat) (asks : List (Input γ κ)) (v : W) : Prop :=
  ∃ begun, Steady v begun ∧ Reaches w since asks v begun

variable {asks : List (Input γ κ)} {begun : Nat} {m : Mark}

theorem Provided.arrives_suspended (h : Provided v begun [] (some m)) (holds : Holds v id t)
    (reaches : Reaches w since asks v begun) (mark : u.mark? = some m)
    (tended : Tended (finish v id (.waiting (Hosting.toTask W u) signals deadline)) [] id u) :
    Arrives w since asks (finish v id (.waiting (Hosting.toTask W u) signals deadline)) := by
  have frame := frame_suspend holds (Hosting.toTask W u) signals deadline
  exact ⟨begun, h.suspended holds mark tended, reaches.then_done (.of_eq frame.state frame.now)⟩

theorem Provided.arrives_awaiting {a : Signal} (h : Provided v begun [] (some m))
    (holds : Holds v id t) (reaches : Reaches w since asks v begun) (mark : u.mark? = some m)
    (awaited : a ∈ (state v).awaits m) :
    Arrives w since asks
      (finish v id (.waiting (Hosting.toTask W u) [Hosting.toSignal W (.gate a)] none)) := by
  refine h.arrives_suspended holds reaches mark (.of_awakes mark (.inr ⟨a, ?_, .inl ?_⟩))
  · rw [finish, executor_update]
    exact Executor.mem_waits_suspend (List.mem_singleton_self _) _ _
  · rw [finish, state_update]
    exact awaited

theorem Provided.arrives_retired (h : Provided v begun [] hand) (holds : Holds v id t)
    (reaches : Reaches w since asks v begun)
    (ended : ∀ m, hand = some m → ¬(state v).Outstanding m) :
    Arrives w since asks (finish v id .ended) := by
  have frame := frame_retire holds
  exact ⟨begun, h.retired holds ended, reaches.then_done (.of_eq frame.state frame.now)⟩

theorem Provided.errand {input : Input γ κ} (next : Option Mark) (h : Provided v begun [] (some m))
    (errand : input.isErrand = true) (admitted : (state v).admits input = true)
    (called : ∀ k ∈ calls (Hosting.step v input).2, next = some k)
    (ended : ¬(state (Hosting.step v input).1).Outstanding m) :
    ∃ last, Provided (Hosting.input v input) last [] next ∧
      Reaches v begun [] (Hosting.input v input) last := by
  rw [← state_input] at ended
  apply h.toLinked.reaches next (fun _ => h.window)
    (fun accepts => .errand accepts errand admitted (.done _)) admitted called
  rintro k hk
  cases hk
  exact .inr ended

theorem Provided.arrives_errand {input : Input γ κ} (h : Provided v begun [] (some m))
    (holds : Holds v id t) (reaches : Reaches w since asks v begun)
    (errand : input.isErrand = true) (admitted : (state v).admits input = true)
    (quiet : calls (Hosting.step v input).2 = [])
    (ended : ¬(state (Hosting.step v input).1).Outstanding m) :
    Arrives w since asks (finish (Hosting.input v input) id .ended) := by
  obtain ⟨last, hprovided, hreaches⟩ :=
    h.errand none errand admitted (by rw [quiet]; nofun) ended
  exact hprovided.arrives_retired ((holds_input h.numbered input).mpr holds)
    (reaches.then_done hreaches) nofun

end Turn

/-! ## Running a hook -/

section Hooks

variable {W σ τ γ κ η : Type} [DecidableEq σ] [Inhabited κ] [Hooked W σ τ γ κ η]
  [LawfulHosting W] {u v w : W} {since begun : Nat} {id : TaskId} {t : Task η} {hook : η}
  {asks more : List (Input γ κ)}

theorem Provided.runActivation {i : Nat} (h : Provided v begun [] (some (.activated i)))
    (holds : Holds v id t) (reaches : Reaches w since asks v begun)
    (conduct : Conduct v more (Hooked.runActivate u i hook).1) :
    Arrives w since (asks ++ more) (finish (Hooked.runActivation u i hook).1 id
      (Hooked.runActivation u i hook).2) := by
  obtain ⟨mid, hran, hreaches, hholds⟩ := h.conduct conduct
  rw [Hooked.runActivation]
  generalize Hooked.runActivate u i hook = run at hran hreaches hholds
  obtain ⟨x, turn⟩ := run
  have hturn : Holds x id t := (hholds id t).mpr holds
  cases turn with
  | waiting hook signals deadline =>
      exact hran.arrives_suspended hturn (reaches.trans hreaches) rfl trivial
  | ended result =>
      obtain ⟨accepts, hmove⟩ := step_move x (.activated i result)
      obtain ⟨n, hpaced⟩ := hran.paced
      exact hran.arrives_errand hturn (reaches.trans hreaches) rfl rfl
        (hmove.calls_eq_nil rfl) (hmove.activated_over hpaced)

theorem Provided.runTeardown {j : Nat} (h : Provided v begun [] (some (.deactivated j)))
    (holds : Holds v id t) (reaches : Reaches w since asks v begun)
    (conduct : Conduct v more (Hooked.runDeactivate u j hook).1) :
    Arrives w since (asks ++ more) (finish (Hooked.runTeardown u j hook).1 id
      (Hooked.runTeardown u j hook).2) := by
  obtain ⟨mid, hran, hreaches, hholds⟩ := h.conduct conduct
  rw [Hooked.runTeardown]
  generalize Hooked.runDeactivate u j hook = run at hran hreaches hholds
  obtain ⟨x, turn⟩ := run
  have hturn : Holds x id t := (hholds id t).mpr holds
  cases turn with
  | waiting hook signals deadline =>
      exact hran.arrives_suspended hturn (reaches.trans hreaches) rfl trivial
  | ended panic =>
      obtain ⟨accepts, hmove⟩ := step_move x (.deactivated j panic)
      obtain ⟨n, hpaced⟩ := hran.paced
      exact hran.arrives_errand hturn (reaches.trans hreaches) rfl rfl
        (hmove.calls_eq_nil rfl) (hmove.deactivated_over hpaced)

/-! ## Whole turns -/

omit [Inhabited κ] [LawfulHosting W] in
theorem turn_activation_of_awaits {i : Nat} {a : Signal} {rest : List Signal}
    (awaits : (state w).activationAwaits i = a :: rest) :
    Hooked.turn w (.activation i none) = (w, .waiting (Hosting.toTask W (.activation i none))
      [Hosting.toSignal W (.gate a)] none) := by
  simp [Hooked.turn, awaits]

omit [Inhabited κ] [LawfulHosting W] in
theorem turn_teardown_of_awaits {j : Nat} {a : Signal} {rest : List Signal}
    (awaits : (state w).teardownAwaits j = a :: rest) :
    Hooked.turn w (.teardown j none) = (w, .waiting (Hosting.toTask W (.teardown j none))
      [Hosting.toSignal W (.gate a)] none) := by
  simp [Hooked.turn, awaits]

omit [Inhabited κ] [LawfulHosting W] in
theorem turn_activation {i : Nat} (free : (state w).activationAwaits i = []) :
    Hooked.turn w (.activation i none) =
      if callsHook (step w (.activate i)).2 = true then
        Hooked.runActivation (Hooked.callActivate (input w (.activate i)) i).1 i
          (Hooked.callActivate (input w (.activate i)) i).2
      else (input w (.activate i), .ended) := by
  simp [Hooked.turn, free, input]

omit [Inhabited κ] [LawfulHosting W] in
theorem turn_teardown {j : Nat} (free : (state w).teardownAwaits j = []) :
    Hooked.turn w (.teardown j none) =
      if callsHook (step w (.deactivate j)).2 = true then
        Hooked.runTeardown (Hooked.callDeactivate (input w (.deactivate j)) j).1 j
          (Hooked.callDeactivate (input w (.deactivate j)) j).2
      else (input w (.deactivate j), .ended) := by
  simp [Hooked.turn, free, input]

variable {before after : List TaskId}

theorem Steady.activation_turn {i : Nat} (h : Steady w since)
    (ready : (executor w).ready = before ++ id :: after)
    (task : job? w id = some (.activation i none))
    (behaves : Behaves (begin w id (before ++ after)) (.activation i none) asks) :
    Arrives w since asks (finish (Hooked.turn (begin w id (before ++ after)) (.activation i none)).1
      id (Hooked.turn (begin w id (before ++ after)) (.activation i none)).2) := by
  have frame := h.frame_begin ready task
  have hbegun := h.provided_begin ready task fun _ => nofun
  have holds := holds_begin task (before ++ after)
  have reaches : Reaches w since [] _ since := .of_eq frame.state frame.now
  generalize begin w id (before ++ after) = v at behaves hbegun holds reaches
  rw [Behaves, hookRun?] at behaves
  cases hawaits : (state v).activationAwaits i with
  | cons a rest =>
      have hasks : asks = [] := by simpa [hawaits] using behaves
      rw [turn_activation_of_awaits hawaits, hasks]
      apply hbegun.arrives_awaiting holds reaches rfl
      rw [State.awaits, hawaits]
      exact List.mem_cons_self
  | nil =>
      obtain ⟨accepts, hmove⟩ := step_move v (.activate i)
      obtain ⟨n, hpaced⟩ := hbegun.paced
      rw [turn_activation hawaits]
      -- Either the hook is called and its end is in hand from now on, or there is nothing to call.
      rcases hmove.activate_free hpaced hawaits with ⟨heffects, hover⟩ | ⟨heffects, hover⟩
      · obtain ⟨mid, hcalled, hreaches⟩ := hbegun.errand (some (.activated i)) rfl rfl
          (by rw [heffects]; intro m hm; rw [List.mem_singleton.mp hm]) hover
        have hhook : callsHook (step v (.activate i)).2 = true := by rw [heffects]; rfl
        rw [if_pos ⟨hawaits, hhook⟩] at behaves
        rw [if_pos hhook]
        exact hcalled.runActivation ((holds_input hbegun.numbered _).mpr holds)
          (reaches.then_done hreaches) behaves
      · have hhook : callsHook (step v (.activate i)).2 = false := by rw [heffects]; rfl
        have hasks : asks = [] := by simpa [hawaits, hhook] using behaves
        rw [hhook, hasks]
        exact hbegun.arrives_errand holds reaches rfl rfl (by rw [heffects]; rfl) hover

theorem Steady.teardown_turn {j : Nat} (h : Steady w since)
    (ready : (executor w).ready = before ++ id :: after)
    (task : job? w id = some (.teardown j none))
    (behaves : Behaves (begin w id (before ++ after)) (.teardown j none) asks) :
    Arrives w since asks (finish (Hooked.turn (begin w id (before ++ after)) (.teardown j none)).1
      id (Hooked.turn (begin w id (before ++ after)) (.teardown j none)).2) := by
  have frame := h.frame_begin ready task
  have hbegun := h.provided_begin ready task fun _ => nofun
  have holds := holds_begin task (before ++ after)
  have reaches : Reaches w since [] _ since := .of_eq frame.state frame.now
  generalize begin w id (before ++ after) = v at behaves hbegun holds reaches
  rw [Behaves, hookRun?] at behaves
  cases hawaits : (state v).teardownAwaits j with
  | cons a rest =>
      have hasks : asks = [] := by simpa [hawaits] using behaves
      rw [turn_teardown_of_awaits hawaits, hasks]
      apply hbegun.arrives_awaiting holds reaches rfl
      rw [State.awaits, hawaits]
      exact List.mem_cons_self
  | nil =>
      obtain ⟨accepts, hmove⟩ := step_move v (.deactivate j)
      obtain ⟨n, hpaced⟩ := hbegun.paced
      rw [turn_teardown hawaits]
      rcases hmove.deactivate_free hpaced hawaits with ⟨heffects, hover⟩ | ⟨heffects, hover⟩
      · obtain ⟨mid, hcalled, hreaches⟩ := hbegun.errand (some (.deactivated j)) rfl rfl
          (by rw [heffects]; intro m hm; rw [List.mem_singleton.mp hm]) hover
        have hhook : callsHook (step v (.deactivate j)).2 = true := by rw [heffects]; rfl
        rw [if_pos ⟨hawaits, hhook⟩] at behaves
        rw [if_pos hhook]
        exact hcalled.runTeardown ((holds_input hbegun.numbered _).mpr holds)
          (reaches.then_done hreaches) behaves
      · have hhook : callsHook (step v (.deactivate j)).2 = false := by rw [heffects]; rfl
        have hasks : asks = [] := by simpa [hawaits, hhook] using behaves
        rw [hhook, hasks]
        exact hbegun.arrives_errand holds reaches rfl rfl (by rw [heffects]; rfl) hover

end Hooks

end Lifecycle.Gate.Hosting
