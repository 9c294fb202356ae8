import Lifecycle.Proofs.Subscribers.Crew

/-!
# The duties of the tasks of a set

Users and subscribers may emit events, begin to listen and let the set go whenever it is held; what
else they do leaves the set alone.  A worker hands on what its queue holds and leaves its turn when
the subscriber has to wait or when nothing is left to do.  The listener stops when it is told to,
though it may receive more before it does.
-/

namespace Lifecycle.Subscribers.Hosting

open HasExecutor
open State (Pending)

variable {W σ τ η : Type} {base k : Nat} {id : TaskId} {turn : Option TaskId}
  {log : List (Nat × Event)} {p : Program η} {x : Work}

section Requests

variable [Hosting W σ τ η] {u v w : W}

theorem Crewed.enlist [LawfulHosting W] (h : Crewed base turn log w) {r : Receiver}
    (executor : executor v = (executor w).spawn (Hosting.toTask W .listener))
    (same : state v = { state w with listener := .listening r })
    (sound : (state v).Sound) (held : (state w).held = true)
    (none : ∀ id, ¬Job w id .listener) : Crewed base turn log v := by
  have hopen : (state w).isOpen = true ∧ (state v).isOpen = true := by
    simp [State.isOpen, same, held]
  have hwork (k : Nat) : (state v).workOf k = (state w).workOf k := by rw [same]; rfl
  have hwaiting (k : Nat) : (state v).waiting k = (state w).waiting k := by rw [same]; rfl
  have hnew : Job v (HasExecutor.executor w).nextTask .listener := by
    rw [Job, executor]
    exact Executor.task?_spawn h.numbered _
  have hold {id : TaskId} {p : Program η} (job : Job w id p) :
      id ≠ (HasExecutor.executor w).nextTask ∧ Job v id p := by
    have hne := Nat.ne_of_lt (h.numbered.tasks id job.present)
    refine ⟨hne, ?_⟩
    rw [Job, executor, Executor.task?_spawn_ne _ hne]
    exact job
  have hjob {id : TaskId} {p : Program η} (job : Job v id p) :
      id = (HasExecutor.executor w).nextTask ∧ p = .listener ∨ Job w id p := by
    by_cases hid : id = (HasExecutor.executor w).nextTask
    · exact .inl ⟨hid, (hid ▸ job).unique hnew⟩
    · rw [Job, executor, Executor.task?_spawn_ne _ hid] at job
      exact .inr job
  have hready {id : TaskId} (ready : id ∈ (HasExecutor.executor w).ready) :
      id ∈ (HasExecutor.executor v).ready := by
    rw [executor]
    exact List.mem_append_left _ ready
  have hawaits {id : TaskId} {s : Signal} : Awaits v id s ↔ Awaits w id s := by
    rw [Awaits, Awaits, executor]
    rfl
  have hrunning : (HasExecutor.executor v).running = (HasExecutor.executor w).running := by
    rw [executor]
    rfl
  have hlistening : (state v).listener.isListening = true := by rw [same]; rfl
  refine ⟨sound, ?_, ?_, fun id hturn => ?_, fun id p job other => ?_, fun id k hand job => ?_,
    fun k x work other => ?_, fun id job other => ⟨hlistening, ?_⟩, fun _ => ⟨_, hnew⟩,
    fun id id' job job' => ?_, fun id job => ?_, fun id s isOver awaits => ?_, ?_⟩
  · rw [executor]
    exact Executor.numbered_spawn h.numbered _
  · rw [same, executor]
    exact Nat.le_succ_of_le h.length
  · obtain ⟨⟨p, job⟩, running⟩ := h.holds id hturn
    exact ⟨⟨p, (hold job).2⟩, hrunning.trans running⟩
  · rw [hrunning]
    rcases hjob job with ⟨rfl, _⟩ | hjob
    · exact h.numbered.idle
    · exact h.others id p hjob other
  · rw [same]
    rcases hjob job with ⟨_, hlistener⟩ | hjob
    · cases hlistener
    · exact h.placed id k hand hjob
  · rw [hwork] at work
    cases h.stands k x work other with
    | idle job awaits =>
        refine .idle (hold job).2 ?_
        rcases awaits with ready | ⟨hempty, _, waits⟩
        · exact .inl (hready ready)
        · exact .inr ⟨(hwaiting k).trans hempty, hopen.2, hawaits.mpr waits⟩
    | handling job => exact .handling (hold job).2
    | ended absent =>
        refine .ended fun hand job => ?_
        rcases hjob job with ⟨_, hlistener⟩ | hjob
        · cases hlistener
        · exact absent hand hjob
  · rcases hjob job with ⟨rfl, _⟩ | hjob
    · left
      rw [executor]
      exact List.mem_append_right _ (List.mem_singleton_self _)
    · exact absurd hjob (none id)
  · rcases hjob job with ⟨rfl, _⟩ | hjob
    · rcases hjob job' with ⟨rfl, _⟩ | hjob'
      · rfl
      · exact absurd hjob' (none id')
    · exact absurd hjob (none id)
  · rw [same]
    rcases hjob job with ⟨rfl, _⟩ | hjob
    · exact h.length
    · exact absurd hjob (none id)
  · have hpending := h.pending id s isOver (hawaits.mp awaits)
    cases s with
    | listenerOver =>
        rw [Pending, same]
        exact ⟨rfl, hpending.2⟩
    | workerOver k => exact absurd (hopen.1.symm.trans hpending.1) (by simp)
    | published | stop | queue => trivial
  · rw [same]
    exact h.told

variable [DecidableEq σ]

/-- Users ask the set for something, and other things go on beside. -/
inductive Conduct : W → W → Prop
  | done (w : W) : Conduct w w
  | aside {w v u : W} (frame : Frame w v) (rest : Conduct v u) : Conduct w u
  | ask {w u : W} {request : Input} (isRequest : request.isRequest = true)
      (held : ∀ r, request = .listen r → (state w).held = true)
      (rest : Conduct (input w request) u) : Conduct w u

theorem Conduct.of_frame (frame : Frame w v) : Conduct w v := .aside frame (.done v)

theorem Conduct.of_ask (w : W) (request : Input) (isRequest : request.isRequest = true)
    (held : ∀ r, request = .listen r → (state w).held = true) :
    Conduct w (Hosting.input w request) :=
  .ask isRequest held (.done _)

theorem Conduct.trans (h₁ : Conduct w v) (h₂ : Conduct v u) : Conduct w u := by
  induction h₁ with
  | done => exact h₂
  | aside frame _ ih => exact .aside frame (ih h₂)
  | ask isRequest held _ ih => exact .ask isRequest held (ih h₂)

variable [LawfulHosting W]

theorem Crewed.listen (h : Crewed base turn log w) (r : Receiver) (held : (state w).held = true)
    (deaf : ∀ id, turn = some id → ¬Job w id .listener) :
    Crewed base turn log (Hosting.input w (.listen r)) := by
  have hstill (same : (state w).step (.listen r) = (state w, [])) :
      Crewed base turn log (Hosting.input w (.listen r)) := by
    rw [Hosting.input, same]
    exact h.frame
      (.of_eq (LawfulHosting.executor_withState w _) (LawfulHosting.state_withState w _))
  cases hlistener : (state w).listener with
  | listening | ended => exact hstill (by rw [State.step, State.listen, hlistener])
  | absent =>
      have hstep : (state w).step (.listen r) =
          ({ state w with listener := .listening r }, [.startListener]) := by
        rw [State.step, State.listen, hlistener]
      have hfits : ∀ r', Input.listen r = .listen r' → (state w).held = true := fun _ _ => held
      have hsound := h.sound.step hfits
      have hnone (id : TaskId) : ¬Job w id .listener := by
        intro job
        have hlistening := (h.listener id job fun hturn => deaf id hturn job).1
        rw [hlistener] at hlistening
        cases hlistening
      rw [hstep] at hsound
      have hinput : Hosting.input w (.listen r) =
          spawn (withState w { state w with listener := .listening r })
            (Hosting.toTask W .listener) := by
        rw [Hosting.input, hstep]
        rfl
      have hstate : state (Hosting.input w (.listen r)) =
          { state w with listener := .listening r } := by rw [state_input, hstep]
      refine h.enlist ?_ hstate (hstate ▸ hsound) held hnone
      rw [hinput, spawn, executor_update, LawfulHosting.executor_withState]

theorem Crewed.ask {request : Input} (h : Crewed base turn log w)
    (isRequest : request.isRequest = true)
    (held : ∀ r, request = .listen r → (state w).held = true)
    (deaf : ∀ id, turn = some id → ¬Job w id .listener) :
    Crewed base turn log (Hosting.input w request) := by
  cases request with
  | listen r => exact h.listen r (held r rfl) deaf
  | emit | release => exact h.plain rfl nofun nofun
  | _ => cases isRequest

theorem Crewed.conduct (h : Crewed base none log w) (conduct : Conduct w v) :
    Crewed base none log v := by
  induction conduct with
  | done => exact h
  | aside frame _ ih => exact ih (h.frame frame)
  | ask isRequest held _ ih => exact ih (h.ask isRequest held nofun)

/-! ## A worker in its turn -/

theorem Job.performAll (job : Job w id p) (numbered : (executor w).Numbered)
    (effects : List Effect) : Job (effects.foldl perform w) id p := by
  induction effects generalizing w with
  | nil => exact job
  | cons e rest ih =>
      cases e with
      | publish e =>
          have hframe := frame_publish w e
          exact ih ((hframe.job id p).mpr job) (hframe.numbered numbered)
      | signal s =>
          have hframe := frame_signal w (Hosting.toSignal W s)
          exact ih ((hframe.job id p).mpr job) (hframe.numbered numbered)
      | startListener =>
          have hold := Nat.ne_of_lt (numbered.tasks id job.present)
          have hexecutor : executor (perform w .startListener) =
              (executor w).spawn (Hosting.toTask W .listener) := executor_update w (·.spawn _)
          refine ih ?_ ?_
          · rw [Job, hexecutor, Executor.task?_spawn_ne _ hold]
            exact job
          · rw [hexecutor]
            exact Executor.numbered_spawn numbered _
      | handle => exact ih job numbered

theorem Job.input (job : Job w id p) (numbered : (executor w).Numbered) (given : Input) :
    Job (Hosting.input w given) id p := by
  have hsame := LawfulHosting.executor_withState w ((state w).step given).1
  exact Job.performAll (((Beside.of_eq hsame).job id p).mpr job) (hsame.symm ▸ numbered) _

structure AtWork (base k : Nat) (log : List (Nat × Event)) (x : Work) (w : W) : Prop
    extends Crewed base (some (base + k)) log w where
  job : ∃ hand, Job w (base + k) (.worker k hand)
  work : (state w).workOf k = some x

namespace AtWork

theorem frame (h : AtWork base k log x w) (frame : Frame w v) : AtWork base k log x v := by
  obtain ⟨hand, job⟩ := h.job
  exact ⟨h.toCrewed.frame frame, ⟨hand, (frame.job _ _).mpr job⟩, frame.state ▸ h.work⟩

theorem ask {request : Input} (h : AtWork base k log x w) (isRequest : request.isRequest = true)
    (held : ∀ r, request = .listen r → (state w).held = true) :
    AtWork base k log x (Hosting.input w request) := by
  obtain ⟨hand, job⟩ := h.job
  refine ⟨h.toCrewed.ask isRequest held fun id hturn listener => ?_,
    ⟨hand, job.input h.numbered request⟩, ?_⟩
  · cases hturn
    cases job.unique listener
  · rw [state_input, State.workOf_request isRequest]
    exact h.work

theorem conduct (h : AtWork base k log x w) (conduct : Conduct w v) : AtWork base k log x v := by
  induction conduct with
  | done => exact h
  | aside frame _ ih => exact ih (h.frame frame)
  | ask isRequest held _ ih => exact ih (h.ask isRequest held)

theorem gets_on {given : Input} {more : List (Nat × Event)} {y : Work} {f : Channel → Channel}
    {effects : List Effect} (h : AtWork base k log x w) (own : given.worker? = some k)
    (step : (state w).step given = ((state w).modifyChannel k f, effects))
    (work : ∀ c, (f c).work = y) (told : ∀ j, handedTo j more = State.handed j effects) :
    AtWork base k (log ++ more) y (Hosting.input w given) := by
  obtain ⟨hand, job⟩ := h.job
  obtain ⟨c, hc, _⟩ := Option.map_eq_some_iff.mp h.work
  refine ⟨h.toCrewed.input given ?_ ?_ ?_ fun j => ?_, ⟨hand, job.input h.numbered given⟩, ?_⟩
  · rintro r rfl
    cases own
  · intro j hj
    rw [own] at hj
    rw [Option.some.inj hj]
  · rintro rfl
    cases own
  · rw [handedTo_append, told, step]
  · rw [state_input, step, State.workOf_modifyChannel, if_pos rfl, hc]
    exact congrArg some (work c)

theorem returns (h : AtWork base k log .handling w) (panic : Option String) :
    AtWork base k log .idle (Hosting.input w (.handled k panic)) := by
  obtain ⟨c, hc, handling⟩ := Option.map_eq_some_iff.mp h.work
  have hnext : AtWork base k (log ++ []) .idle (Hosting.input w (.handled k panic)) :=
    h.gets_on rfl (State.step_handled hc handling panic) (fun _ => rfl) fun j => by
      cases panic <;> rfl
  rwa [List.append_nil] at hnext

theorem takes {e : Event} {rest : List Event} (h : AtWork base k log .idle w)
    (waiting : (state w).waiting k = e :: rest) :
    AtWork base k (log ++ [(k, e)]) .handling (Hosting.input w (.take k)) := by
  obtain ⟨c, hc, idle⟩ := Option.map_eq_some_iff.mp h.work
  rw [Circuit.waiting_eq hc] at waiting
  refine h.gets_on rfl (State.step_take hc idle waiting) (fun _ => rfl) fun j => ?_
  by_cases hj : k = j <;> simp [handedTo, State.handed, Effect.handed?, hj]

theorem finishes (h : AtWork base k log .idle w) (empty : (state w).waiting k = [])
    (closed : (state w).isOpen = false) :
    AtWork base k log .ended (Hosting.input w (.finish k)) := by
  obtain ⟨c, hc, idle⟩ := Option.map_eq_some_iff.mp h.work
  rw [Circuit.waiting_eq hc] at empty
  have hstep : (state w).step (.finish k) =
      ((state w).modifyChannel k fun c => { c with work := .ended },
        [.signal (.workerOver k)]) := by
    simp [State.step, State.finish, hc, idle, empty, closed]
  have hnext : AtWork base k (log ++ []) .ended (Hosting.input w (.finish k)) :=
    h.gets_on rfl hstep (fun _ => rfl) fun _ => rfl
  rwa [List.append_nil] at hnext

end AtWork

end Requests

section Turns

variable [DecidableEq σ] [Handling W σ τ η] {u v w : W}

inductive Parks (w : W) (k : Nat) : Work → Rest σ τ → Prop
  | ends : Parks w k .ended .ended
  | awaits (empty : (state w).waiting k = []) (isOpen : (state w).isOpen = true) :
      Parks w k .idle (waitFor (W := W) (.worker k none) [.queue k])
  | yields : Parks w k .idle (.yielding (Hosting.toTask W (.worker k none)))
  | pauses {handler : η} {signals : List σ} {deadline : Option Nat}
      (quiet : ∀ s : Signal, s.isOver = true → Hosting.toSignal W s ∉ signals) :
      Parks w k .handling
        (.waiting (Hosting.toTask W (.worker k (some handler))) signals deadline)

def servedFrom (k : Nat) : Nat → W → η → List Event
  | fuel, w, handler =>
      match Handling.runHandler w k handler with
      | (_, .waiting _ _ _) => []
      | (w, .ended panic) =>
          let w := input w (.handled k panic)
          match fuel, (state w).waiting k with
          | 0, _ | _, [] => []
          | fuel + 1, e :: _ =>
              let (w, handler) := Handling.callHandler (input w (.take k)) k e
              e :: servedFrom k fuel w handler

def served (w : W) : Program η → List (Nat × Event)
  | .listener => []
  | .worker k (some handler) =>
      (servedFrom k ((state w).waiting k).length.succ w handler).map (k, ·)
  | .worker k none =>
      match (state w).waiting k with
      | [] => []
      | e :: rest =>
          let (w, handler) := Handling.callHandler (input w (.take k)) k e
          (e :: servedFrom k (rest.length + 1) w handler).map (k, ·)

end Turns

end Lifecycle.Subscribers.Hosting

namespace Lifecycle.Subscribers

open Hosting

/-- A world whose subscribers do what anybody may do, and do not wait for a task of the set to
end. -/
class LawfulHandling (W : Type) {σ τ η : outParam Type} [DecidableEq σ] [Handling W σ τ η] : Prop
    extends LawfulHosting W where
  call : ∀ (w : W) k e, Conduct w (Handling.callHandler w k e).1
  run : ∀ (w : W) k handler, Conduct w (Handling.runHandler w k handler).1
  quiet : ∀ (w : W) k handler next signals deadline,
    (Handling.runHandler w k handler).2 = .waiting next signals deadline →
      ∀ s : Signal, s.isOver = true → Hosting.toSignal W s ∉ signals

namespace Hosting

open HasExecutor

variable {W σ τ η : Type} [DecidableEq σ] [Handling W σ τ η] [LawfulHandling W] {v w : W}
  {base k : Nat} {id : TaskId} {log : List (Nat × Event)} {p : Program η} {x : Work}

/-! ## The turn of a worker -/

def Served (base k : Nat) (log : List (Nat × Event)) (r : W × Rest σ τ) : Prop :=
  ∃ x, AtWork base k log x r.1 ∧ Parks r.1 k x r.2

theorem AtWork.handsOn {e : Event} {rest : List Event} (h : AtWork base k log .idle w)
    (waiting : (state w).waiting k = e :: rest) :
    AtWork base k (log ++ [(k, e)]) .handling
      (Handling.callHandler (Hosting.input w (.take k)) k e).1 :=
  (h.takes waiting).conduct (LawfulHandling.call _ k e)

theorem AtWork.rests (h : AtWork base k log .idle w) (empty : (state w).waiting k = []) :
    ∃ v rest, Handling.next w k = (v, .inr rest) ∧ Served base k log (v, rest) := by
  cases hopen : (state w).isOpen with
  | true =>
      refine ⟨w, waitFor (W := W) (.worker k none) [.queue k], ?_, .idle, h, .awaits empty hopen⟩
      simp [Handling.next, empty, hopen]
  | false =>
      refine ⟨Hosting.input w (.finish k), .ended, ?_, .ended, h.finishes empty hopen, .ends⟩
      simp [Handling.next, empty, hopen]

omit [LawfulHandling W] in
theorem next_of_waiting {e : Event} {rest : List Event}
    (waiting : (state w).waiting k = e :: rest) :
    Handling.next w k = ((Handling.callHandler (Hosting.input w (.take k)) k e).1,
      .inl (Handling.callHandler (Hosting.input w (.take k)) k e).2) := by
  simp [Handling.next, waiting]

theorem AtWork.serve (h : AtWork base k log .handling w) (fuel : Nat) (handler : η) :
    Served base k (log ++ (servedFrom k fuel w handler).map (k, ·))
      (Handling.serve k fuel w handler) := by
  induction fuel generalizing w handler log with
  | zero =>
      rw [Handling.serve, servedFrom]
      have hran := h.conduct (LawfulHandling.run w k handler)
      have hquiet := LawfulHandling.quiet w k handler
      generalize Handling.runHandler w k handler = result at hran hquiet
      obtain ⟨u, ⟨next, signals, deadline⟩ | panic⟩ := result
      · rw [List.map_nil, List.append_nil]
        exact ⟨_, hran, .pauses (hquiet next signals deadline rfl)⟩
      · rw [List.map_nil, List.append_nil]
        exact ⟨_, hran.returns panic, .yields⟩
  | succ fuel ih =>
      rw [Handling.serve, servedFrom]
      have hran := h.conduct (LawfulHandling.run w k handler)
      have hquiet := LawfulHandling.quiet w k handler
      generalize Handling.runHandler w k handler = result at hran hquiet
      obtain ⟨u, ⟨next, signals, deadline⟩ | panic⟩ := result
      · rw [List.map_nil, List.append_nil]
        exact ⟨_, hran, .pauses (hquiet next signals deadline rfl)⟩
      · have hreturned := hran.returns panic
        dsimp only at hreturned ⊢
        cases hwaiting : (state (Hosting.input u (.handled k panic))).waiting k with
        | nil =>
            obtain ⟨v, rest, hnext, hserved⟩ := hreturned.rests hwaiting
            rw [hnext]
            simpa using hserved
        | cons e rest =>
            have hserved := ih (hreturned.handsOn hwaiting)
              (Handling.callHandler (Hosting.input (Hosting.input u (.handled k panic)) (.take k))
                k e).2
            rw [next_of_waiting hwaiting]
            rw [List.append_assoc] at hserved
            exact hserved

theorem AtWork.turn_none (h : AtWork base k log .idle w) :
    Served base k (log ++ served w (.worker k none)) (Handling.turn w (.worker k none)) := by
  rw [Handling.turn, served]
  cases hwaiting : (state w).waiting k with
  | nil =>
      obtain ⟨v, rest, hnext, hserved⟩ := h.rests hwaiting
      rw [hnext]
      simpa using hserved
  | cons e rest =>
      have hserved := (h.handsOn hwaiting).serve (rest.length + 1)
        (Handling.callHandler (Hosting.input w (.take k)) k e).2
      rw [next_of_waiting hwaiting]
      rw [List.append_assoc] at hserved
      exact hserved

/-! ## The turn of the listener -/

structure AtEar (base : Nat) (id : TaskId) (log : List (Nat × Event)) (w : W) : Prop
    extends Crewed base (some id) log w where
  job : Job w id .listener

theorem AtEar.gets_on {given : Input} (h : AtEar base id log w)
    (own : given.worker? = none) (no_task : ∀ r, given ≠ .listen r) :
    AtEar base id log (Hosting.input w given) :=
  ⟨h.toCrewed.plain own no_task fun _ => ⟨id, rfl, h.job⟩, h.job.input h.numbered given⟩

inductive Hushes (w : W) : Rest σ τ → Prop
  | ends (deaf : (state w).listener.isListening = false) : Hushes w .ended
  | awaits (listening : (state w).listener.isListening = true)
      (going : (state w).stopping = false) :
      Hushes w (waitFor (W := W) .listener [.stop, .published])
  | yields (listening : (state w).listener.isListening = true) :
      Hushes w (.yielding (Hosting.toTask W .listener))

theorem AtEar.hears (h : AtEar base id log w) (receipt : Receipt) (next : Receiver) :
    AtEar base id log (Hosting.input w (.hear receipt next)) :=
  h.gets_on rfl (by simp)

theorem AtEar.unlistens (h : AtEar base id log w) :
    AtEar base id log (Hosting.input w .unlisten) ∧
      (state (Hosting.input w .unlisten)).listener.isListening = false := by
  refine ⟨h.gets_on rfl (by simp), ?_⟩
  rw [state_input, State.step, State.unlisten]
  cases hlistener : (state w).listener <;> simp [hlistener, Listener.isListening]

/-- What a listener may do in its turn.  Once it is told to stop it may still receive before it does
so, and it may let the other tasks have their turns after any receipt. -/
inductive Overhears : W → W → Rest σ τ → Prop
  | stops {w : W} (stopping : (state w).stopping = true) :
      Overhears w (Hosting.input w .unlisten) .ended
  | deaf {w : W} (deaf : (state w).listener.isListening = false) : Overhears w w .ended
  | waits {w : W} {r next : Receiver} (going : (state w).stopping = false)
      (listener : (state w).listener = .listening r)
      (received : (bus w).receive r = (.nothing, next)) :
      Overhears w w (waitFor (W := W) .listener [.stop, .published])
  | yields {w : W} {r : Receiver} (listener : (state w).listener = .listening r) :
      Overhears w w (.yielding (Hosting.toTask W .listener))
  | hears {w v : W} {r next : Receiver} {receipt : Receipt} {rest : Rest σ τ}
      (listener : (state w).listener = .listening r)
      (received : (bus w).receive r = (receipt, next)) (heard : receipt ≠ .nothing)
      (later : Overhears (Hosting.input w (.hear receipt next)) v rest) : Overhears w v rest

theorem listening_hear {r : Receiver} (listener : (state w).listener = .listening r)
    (receipt : Receipt) (next : Receiver) :
    ∃ later, (state (Hosting.input w (.hear receipt next))).listener = .listening later := by
  have hlistening : (state (Hosting.input w (.hear receipt next))).listener.isListening = true := by
    rw [state_input, State.isListening_step (by simp) (by simp), listener]
    rfl
  revert hlistening
  cases (state (Hosting.input w (.hear receipt next))).listener with
  | listening later => exact fun _ => ⟨later, rfl⟩
  | absent | ended => exact nofun

/-- Passing on what it receives, the listener stops as soon as it is told to. -/
theorem overhears_passOn (fuel : Nat) (w : W) :
    Overhears w (Hosting.passOn fuel w).1 (Hosting.passOn fuel w).2 := by
  fun_induction Hosting.passOn fuel w with
  | case1 fuel w stopping => exact .stops stopping
  | case2 fuel w going listener => exact .deaf (by rw [listener]; rfl)
  | case3 fuel w going listener => exact .deaf (by rw [listener]; rfl)
  | case4 fuel w going r listener next received =>
      exact .waits (Bool.eq_false_iff.mpr going) listener received
  | case5 fuel w going r listener lost next received =>
      obtain ⟨later, hlater⟩ := listening_hear listener (.lagged lost) next
      exact .hears listener received Receipt.noConfusion (.yields hlater)
  | case6 w going r listener e next received =>
      obtain ⟨later, hlater⟩ := listening_hear listener (.event e) next
      exact .hears listener received Receipt.noConfusion (.yields hlater)
  | case7 w going r listener e next received later fuel ih =>
      exact .hears listener received Receipt.noConfusion ih

theorem AtEar.overhears {rest : Rest σ τ} (h : AtEar base id log w)
    (overhears : Overhears w v rest) : AtEar base id log v ∧ Hushes v rest := by
  induction overhears with
  | stops => exact h.unlistens.imp_right .ends
  | deaf deaf => exact ⟨h, .ends deaf⟩
  | waits going listener => exact ⟨h, .awaits (by rw [listener]; rfl) going⟩
  | yields listener => exact ⟨h, .yields (by rw [listener]; rfl)⟩
  | hears listener received heard later ih => exact ih (h.hears _ _)

/-! ## The end of a turn -/

def signalsOf : Rest σ τ → List σ
  | .waiting _ signals _ => signals
  | .ended | .yielding _ => []

theorem awaits_left {rest : Rest σ τ} {other : TaskId} {s : Signal}
    (quiet : Hosting.toSignal W s ∉ signalsOf rest)
    (awaits : Awaits (update w (·.left id rest)) other s) : Awaits w other s := by
  rw [Awaits, executor_update] at awaits
  cases rest with
  | ended => exact (List.mem_filter.mp awaits).1
  | waiting program signals deadline =>
      rcases List.mem_append.mp awaits with hkept | hnew
      · exact (List.mem_filter.mp hkept).1
      · obtain ⟨a, ha, heq⟩ := List.mem_map.mp (List.mem_filter.mp hnew).1
        cases heq
        exact absurd ha quiet
  | yielding program =>
      obtain ⟨more, hmore⟩ := Executor.requeue_eq (x := executor w) program
      rw [Executor.left, hmore] at awaits
      exact (List.mem_filter.mp awaits).1

theorem job_left (job : Job w id p) (rest : Rest σ τ) (q : Program η) :
    Job (update w (·.left id rest)) id q ↔ rest.program? = some (Hosting.toTask W q) := by
  rw [Job, executor_update, Executor.task?_left job.present]

theorem isOver_not_mem {s s' : Signal} (isOver : s.isOver = true) (other : s'.isOver = false) :
    Hosting.toSignal W s ≠ Hosting.toSignal W s' := by
  intro heq
  rw [LawfulHosting.toSignal_injective s s' heq, other] at isOver
  cases isOver

theorem Parks.stands {rest : Rest σ τ} (h : Parks w k x rest) (job : Job w id p) :
    Stands (update w (·.left id rest)) id k x := by
  have hleft := job_left job rest
  have hexecutor := executor_update w (·.left id rest)
  cases h with
  | ends => exact .ended fun hand hjob => by cases (hleft _).mp hjob
  | awaits empty isOpen =>
      refine .idle ((hleft _).mpr rfl) (.inr ?_)
      rw [state_update, Awaits, hexecutor]
      exact ⟨empty, isOpen, Executor.mem_waits_suspend (List.mem_singleton_self _) _ _⟩
  | yields =>
      refine .idle ((hleft _).mpr rfl) (.inl ?_)
      rw [hexecutor]
      exact Executor.mem_ready_requeue job.present _
  | pauses => exact .handling ((hleft _).mpr rfl)

theorem AtWork.leaves {rest : Rest σ τ} (h : AtWork base k log x w) (parks : Parks w k x rest) :
    Crewed base none log (update w (·.left (base + k) rest)) := by
  obtain ⟨hand, job⟩ := h.job
  have hleft := job_left job rest
  have hexecutor := executor_update w (·.left (base + k) rest)
  have hworker (q : Program η) (hq : rest.program? = some (Hosting.toTask W q)) :
      ∃ hand, q = .worker k hand := by
    cases parks with
    | ends => cases hq
    | awaits | yields | pauses =>
        exact ⟨_, (LawfulHosting.toTask_injective _ _ (Option.some.inj hq)).symm⟩
  have hquiet (s : Signal) (isOver : s.isOver = true) :
      Hosting.toSignal W s ∉ signalsOf rest := by
    cases parks with
    | ends | yields => exact List.not_mem_nil
    | awaits =>
        exact fun mem => isOver_not_mem isOver rfl (List.mem_singleton.mp mem)
    | pauses quiet => exact quiet s isOver
  refine h.toCrewed.passed (base + k) ?_ ?_ (state_update w _)
    (fun other s isOver awaits => .inl (awaits_left (hquiet s isOver) awaits))
    (fun other => Eq.symm ∘ Option.some.inj)
    nofun nofun (fun _ => ?_) (fun j hand' hjob => ?_) (fun j y hid hwork _ => ?_) (fun hjob => ?_)
    fun _ hjob => ?_
  · rw [hexecutor]
    exact Executor.keeps_left (h.holds _ rfl).2 rest
  · rw [hexecutor, Executor.nextTask_left]
  · rw [hexecutor, Executor.running_left]
    exact nofun
  · obtain ⟨hand'', hq⟩ := hworker _ ((hleft _).mp hjob)
    cases hq
    exact ⟨hand, job⟩
  · obtain rfl : k = j := Nat.add_left_cancel hid
    obtain rfl := Option.some.inj (h.work.symm.trans hwork)
    exact parks.stands job
  · obtain ⟨hand'', hq⟩ := hworker _ ((hleft _).mp hjob)
    cases hq
  · cases hjob.unique job

theorem AtEar.leaves {rest : Rest σ τ} (h : AtEar base id log w) (hushes : Hushes w rest) :
    Crewed base none log (update w (·.left id rest)) := by
  have hleft := job_left h.job rest
  have hexecutor := executor_update w (·.left id rest)
  have hlistener (q : Program η) (hq : rest.program? = some (Hosting.toTask W q)) :
      q = .listener ∧ (state w).listener.isListening = true := by
    cases hushes with
    | ends => cases hq
    | awaits listening | yields listening =>
        exact ⟨(LawfulHosting.toTask_injective _ _ (Option.some.inj hq)).symm, listening⟩
  have hquiet (s : Signal) (isOver : s.isOver = true) :
      Hosting.toSignal W s ∉ signalsOf rest := by
    cases hushes with
    | ends | yields => exact List.not_mem_nil
    | awaits =>
        intro mem
        rcases List.mem_cons.mp mem with heq | mem
        · exact isOver_not_mem isOver rfl heq
        · exact isOver_not_mem isOver rfl (List.mem_singleton.mp mem)
  refine h.toCrewed.passed id ?_ ?_ (state_update w _)
    (fun other s isOver awaits => .inl (awaits_left (hquiet s isOver) awaits))
    (fun other => Eq.symm ∘ Option.some.inj)
    nofun nofun (fun _ => ?_) (fun j hand hjob => ?_) (fun j y hid hwork _ => ?_)
    (fun hjob => ⟨h.job, fun _ => ⟨(hlistener _ ((hleft _).mp hjob)).2, ?_⟩⟩)
    fun hlistening _ => ?_
  · rw [hexecutor]
    exact Executor.keeps_left (h.holds _ rfl).2 rest
  · rw [hexecutor, Executor.nextTask_left]
  · rw [hexecutor, Executor.running_left]
    exact nofun
  · cases (hlistener _ ((hleft _).mp hjob)).1
  · have hlt := workOf_isSome_iff.mp ⟨y, hwork⟩
    have hapart := h.apart id h.job
    rw [hid] at hapart
    omega
  · rw [hexecutor]
    cases hushes with
    | ends => cases (hleft _).mp hjob
    | awaits _ going =>
        rw [Awaits, hexecutor]
        exact .inr ⟨going, Executor.mem_waits_suspend List.mem_cons_self _ _⟩
    | yields => exact .inl (Executor.mem_ready_requeue h.job.present _)
  · cases hushes with
    | ends deaf =>
        rw [deaf] at hlistening
        cases hlistening
    | awaits | yields => exact (hleft _).mpr rfl

end Hosting

end Lifecycle.Subscribers
