import Lifecycle.Subscribers.Hosting

/-!
# The desk of a worker

A worker gets on by what is on its desk: the queue of its subscriber, what the subscriber remembers,
the place of its program, and the time.  As long as nothing comes in, all that it does up to some
time follows from what is on the desk, whatever else goes on and however the clock gets there.
-/

namespace Lifecycle.Subscribers

/-- What a subscriber does with its events at some time, and what it remembers of them.  It stays at
its places, and waits for its signals and for times to come only. -/
structure Habit (σ η μ : Type) where
  call : Nat → μ → Event → μ × η
  run : Nat → μ → η → μ × HandlerTurn σ η
  places : η → Prop
  signals : σ → Prop
  call_places : ∀ time memory e, places (call time memory e).2
  run_places : ∀ {time memory handler next awaited deadline}, places handler →
    (run time memory handler).2 = .waiting next awaited deadline → places next
  run_signals : ∀ {time memory handler next awaited deadline}, places handler →
    (run time memory handler).2 = .waiting next awaited deadline → ∀ s ∈ awaited, signals s
  run_ahead : ∀ {time memory handler next awaited deadline}, places handler →
    (run time memory handler).2 = .waiting next awaited (some deadline) → time < deadline

inductive Stage (σ η : Type) where
  | free
  | going (handler : η)
  | paused (handler : η) (signals : List σ) (deadline : Option Nat)

namespace Stage

variable {σ η : Type} {stage : Stage σ η} {time later : Nat}

def deadline? : Stage σ η → Option Nat
  | free | going _ => none
  | paused _ _ deadline => deadline

def rung (time : Nat) : Stage σ η → Stage σ η
  | free => free
  | going handler => going handler
  | paused handler signals deadline =>
      if deadline.any (· ≤ time) then going handler else paused handler signals deadline

def woken [DecidableEq σ] (given : List σ) : Stage σ η → Stage σ η
  | free => free
  | going handler => going handler
  | paused handler signals deadline =>
      if given.any signals.contains then going handler else paused handler signals deadline

theorem rung_of_later (later : ∀ deadline, stage.deadline? = some deadline → time < deadline) :
    stage.rung time = stage := by
  cases stage with
  | free | going => rfl
  | paused handler signals deadline =>
      cases deadline with
      | none => rfl
      | some t => exact if_neg (by simpa using later t rfl)

end Stage

/-- All that a worker gets on by. -/
structure Desk (σ η μ : Type) where
  now : Nat
  habit : Habit σ η μ
  memory : μ
  capacity : Nat
  accepted : List Event := []
  handed : Nat := 0
  stage : Stage σ η := .free

def timed (time : Nat) (before after : List Event) : List (Nat × Event) :=
  (after.drop before.length).map (time, ·)

@[simp] theorem timed_self (time : Nat) (events : List Event) : timed time events events = [] := by
  simp [timed]

/-- What comes to a subscriber from outside. -/
inductive Cue (σ μ : Type) where
  | emit (e : Event)
  | hear (learn : μ → μ) (given : List σ)

/-- How long a worker is left to itself: not at all, up to a time but without a turn at that time,
or until it has nothing left to do at the time. -/
inductive Respite where
  | none
  | upTo (time : Nat)
  | through (time : Nat)

structure Moment (σ μ : Type) where
  cues : List (Cue σ μ)
  respite : Respite

namespace Desk

variable {σ η μ : Type} {d u v : Desk σ η μ} {time target limit : Nat}
  {log more : List (Nat × Event)}

def ofCapacity (now : Nat) (habit : Habit σ η μ) (memory : μ) (capacity : Nat) : Desk σ η μ :=
  { now, habit, memory, capacity := max 1 capacity }

def waiting (d : Desk σ η μ) : List Event := d.accepted.drop d.handed

def isFull (d : Desk σ η μ) : Bool := d.capacity ≤ d.waiting.length

def told (d : Desk σ η μ) : List Event := d.accepted.take d.handed

def Rests (d : Desk σ η μ) : Prop :=
  match d.stage with
  | .free => d.waiting = []
  | .going _ => False
  | .paused _ _ _ => True

def withMemory (d : Desk σ η μ) (memory : μ) : Desk σ η μ := { d with memory }

def place (d : Desk σ η μ) (e : Event) : η := (d.habit.call d.now d.memory e).2

def next (d : Desk σ η μ) (e : Event) : Desk σ η μ :=
  { d with handed := d.handed + 1, memory := (d.habit.call d.now d.memory e).1 }

def serve : Nat → Desk σ η μ → η → Desk σ η μ
  | fuel, d, handler =>
      match d.habit.run d.now d.memory handler with
      | (memory, .waiting next awaited deadline) =>
          { d with memory, stage := .paused next awaited deadline }
      | (memory, .ended _) =>
          match d.waiting with
          | [] => { d with memory, stage := .free }
          | e :: _ =>
              match fuel with
              | 0 => { d with memory, stage := .free }
              | fuel + 1 =>
                  serve fuel ((d.withMemory memory).next e) ((d.withMemory memory).place e)

def turn (d : Desk σ η μ) : Desk σ η μ :=
  match d.stage with
  | .paused _ _ _ => d
  | .going handler => serve d.waiting.length.succ d handler
  | .free =>
      match d.waiting with
      | [] => d
      | e :: rest => serve (rest.length + 1) (d.next e) (d.place e)

def moveClock (d : Desk σ η μ) (time : Nat) : Desk σ η μ :=
  { d with now := time, stage := d.stage.rung time }

def receive [DecidableEq σ] (d : Desk σ η μ) : Cue σ μ → Desk σ η μ
  | .emit e => if d.isFull then d else { d with accepted := d.accepted ++ [e] }
  | .hear learn given => { d with memory := learn d.memory, stage := d.stage.woken given }

/-! ## What follows from a desk -/

/-- What the worker does until the clock comes to the target, with the events that are handed to the
subscriber: it has its turns while it can go on, and is woken at its deadlines before the limit. -/
inductive Passes (target limit : Nat) : Desk σ η μ → List (Nat × Event) → Desk σ η μ → Prop
  | rests {d : Desk σ η μ} (rests : d.Rests) (within : d.now < limit)
      (later : ∀ deadline, d.stage.deadline? = some deadline → limit ≤ deadline) :
      Passes target limit d [] (d.moveClock target)
  | rings {d v : Desk σ η μ} {deadline : Nat} {log : List (Nat × Event)} (rests : d.Rests)
      (armed : d.stage.deadline? = some deadline) (ahead : d.now ≤ deadline)
      (next : Passes target limit (d.moveClock deadline) log v) : Passes target limit d log v
  | turns {d v : Desk σ η μ} {log : List (Nat × Event)} (eager : ¬d.Rests)
      (next : Passes target limit d.turn log v) :
      Passes target limit d (timed d.now d.told d.turn.told ++ log) v

theorem now_serve (fuel : Nat) (d : Desk σ η μ) (handler : η) :
    (serve fuel d handler).now = d.now := by
  fun_induction serve fuel d handler with
  | case1 | case2 | case3 => rfl
  | case4 d handler memory panic returned e rest waiting fuel ih => exact ih

theorem now_turn (d : Desk σ η μ) : d.turn.now = d.now := by
  rw [turn]
  cases d.stage with
  | paused => rfl
  | going handler => exact now_serve _ _ _
  | free =>
      cases d.waiting with
      | nil => rfl
      | cons e rest => exact now_serve _ _ _

theorem Passes.within (h : Passes target limit d log v) : d.now < limit := by
  induction h with
  | rests _ within => exact within
  | rings _ _ ahead _ ih => exact Nat.lt_of_le_of_lt ahead ih
  | turns _ _ ih => rwa [now_turn] at ih

theorem Passes.unique (h₁ : Passes target limit d log u) (h₂ : Passes target limit d more v) :
    log = more ∧ u = v := by
  induction h₁ generalizing more v with
  | rests rests _ later =>
      cases h₂ with
      | rests => exact ⟨rfl, rfl⟩
      | rings _ armed _ next => exact absurd next.within (Nat.not_lt_of_le (later _ armed))
      | turns eager => exact absurd rests eager
  | rings rests armed _ next ih =>
      cases h₂ with
      | rests _ _ later => exact absurd next.within (Nat.not_lt_of_le (later _ armed))
      | rings _ armed' _ next' =>
          cases armed.symm.trans armed'
          exact ih next'
      | turns eager => exact absurd rests eager
  | turns eager _ ih =>
      cases h₂ with
      | rests rests | rings rests => exact absurd rests eager
      | turns _ next =>
          obtain ⟨hlog, hdesk⟩ := ih next
          exact ⟨by rw [hlog], hdesk⟩

theorem turn_of_rests (rests : d.Rests) : d.turn = d := by
  rw [Rests] at rests
  rw [turn]
  cases hstage : d.stage with
  | paused => rfl
  | going => rw [hstage] at rests; exact rests.elim
  | free =>
      rw [hstage] at rests
      rw [show d.waiting = [] from rests]

theorem moveClock_of_later
    (later : ∀ deadline, d.stage.deadline? = some deadline → time < deadline) :
    d.moveClock time = { d with now := time } := by
  rw [moveClock, Stage.rung_of_later later]

theorem Passes.turn (h : Passes target limit d.turn log v) :
    Passes target limit d (timed d.now d.told d.turn.told ++ log) v := by
  by_cases rests : d.Rests
  · rw [turn_of_rests rests] at h ⊢
    rwa [timed_self]
  · exact .turns rests h

theorem Passes.moveClock (h : Passes target limit (d.moveClock time) log v) (rests : d.Rests)
    (ahead : d.now ≤ time)
    (due : ∀ deadline, d.stage.deadline? = some deadline → time ≤ deadline) :
    Passes target limit d log v := by
  by_cases hrings : d.stage.deadline? = some time
  · exact .rings rests hrings ahead h
  · have hlater (deadline : Nat) (armed : d.stage.deadline? = some deadline) : time < deadline :=
      Nat.lt_of_le_of_ne (due deadline armed) fun heq => hrings (heq ▸ armed)
    rw [moveClock_of_later hlater] at h
    -- Only the clock differs, so whatever comes next of the one desk comes next of the other.
    generalize hu : { d with now := time } = u at h
    cases h with
    | rests _ within later =>
        subst hu
        exact .rests rests (Nat.lt_of_le_of_lt ahead within) later
    | rings _ armed _ next =>
        subst hu
        exact .rings rests armed (Nat.le_trans ahead (due _ armed)) next
    | turns eager =>
        subst hu
        exact absurd rests eager

inductive Spends : Respite → Desk σ η μ → List (Nat × Event) → Desk σ η μ → Prop
  | none (d : Desk σ η μ) : Spends .none d [] d
  | upTo {d v : Desk σ η μ} {time : Nat} {log : List (Nat × Event)}
      (passes : Passes time time d log v) : Spends (.upTo time) d log v
  | through {d v : Desk σ η μ} {time : Nat} {log : List (Nat × Event)}
      (passes : Passes time (time + 1) d log v) : Spends (.through time) d log v

theorem Spends.unique {respite : Respite} (h₁ : Spends respite d log u)
    (h₂ : Spends respite d more v) : log = more ∧ u = v := by
  cases h₁ with
  | none =>
      cases h₂
      exact ⟨rfl, rfl⟩
  | upTo passes =>
      cases h₂ with
      | upTo passes' => exact passes.unique passes'
  | through passes =>
      cases h₂ with
      | through passes' => exact passes.unique passes'

theorem told_moveClock (d : Desk σ η μ) (time : Nat) : (d.moveClock time).told = d.told := rfl

/-! ## What has been handed on -/

theorem told_next {e : Event} {rest : List Event} (waiting : d.waiting = e :: rest) :
    (d.next e).told = d.told ++ [e] := by
  have hget : d.accepted[d.handed]? = some e := by
    rw [← List.head?_drop, show d.accepted.drop d.handed = e :: rest from waiting]
    rfl
  rw [told, told, next, List.take_add_one, hget]
  rfl

def Advances (d v : Desk σ η μ) : Prop :=
  v.accepted = d.accepted ∧ ∃ more, v.told = d.told ++ more

theorem advances_serve (fuel : Nat) (d : Desk σ η μ) (handler : η) :
    d.Advances (serve fuel d handler) := by
  fun_induction serve fuel d handler with
  | case1 | case2 | case3 => exact ⟨rfl, [], (List.append_nil _).symm⟩
  | case4 d handler memory panic returned e rest waiting fuel ih =>
      obtain ⟨haccepted, more, htold⟩ := ih
      have hnext : ((d.withMemory memory).next e).told = d.told ++ [e] := told_next waiting
      refine ⟨haccepted, e :: more, ?_⟩
      rw [htold, hnext, List.append_assoc]
      rfl

theorem advances_turn (d : Desk σ η μ) : d.Advances d.turn := by
  have hsame : d.Advances d := ⟨rfl, [], (List.append_nil _).symm⟩
  rw [turn]
  cases d.stage with
  | paused => exact hsame
  | going handler => exact advances_serve _ _ _
  | free =>
      cases hwaiting : d.waiting with
      | nil => exact hsame
      | cons e rest =>
          obtain ⟨haccepted, more, htold⟩ := advances_serve (rest.length + 1) (d.next e) (d.place e)
          refine ⟨haccepted, e :: more, ?_⟩
          rw [htold, told_next hwaiting, List.append_assoc]
          rfl

theorem map_timed (time : Nat) (before more : List Event) :
    (timed time before (before ++ more)).map Prod.snd = more := by
  simp [timed, Function.comp_def]

theorem Passes.told (h : Passes target limit d log v) :
    v.accepted = d.accepted ∧ v.told = d.told ++ log.map Prod.snd := by
  induction h with
  | rests => exact ⟨rfl, (List.append_nil _).symm⟩
  | rings _ _ _ _ ih => exact ih
  | @turns d v log _ _ ih =>
      obtain ⟨haccepted, more, htold⟩ := d.advances_turn
      refine ⟨ih.1.trans haccepted, ?_⟩
      rw [ih.2, htold, List.map_append, map_timed, List.append_assoc]

theorem Spends.told {respite : Respite} (h : Spends respite d log v) :
    v.accepted = d.accepted ∧ v.told = d.told ++ log.map Prod.snd := by
  cases h with
  | none => exact ⟨rfl, (List.append_nil _).symm⟩
  | upTo passes | through passes => exact passes.told

/-! ## Scripts -/

variable [DecidableEq σ]

theorem told_receive (within : d.handed ≤ d.accepted.length) (cue : Cue σ μ) :
    (d.receive cue).told = d.told := by
  cases cue with
  | hear => rfl
  | emit e =>
      rw [receive]
      split
      · rfl
      · exact List.take_append_of_le_length within

theorem within_receive (within : d.handed ≤ d.accepted.length) (cue : Cue σ μ) :
    (d.receive cue).handed ≤ (d.receive cue).accepted.length := by
  cases cue with
  | hear => exact within
  | emit e =>
      rw [receive]
      split
      · exact within
      · rw [List.length_append]
        exact Nat.le_add_right_of_le within

theorem told_receiveAll (within : d.handed ≤ d.accepted.length) (cues : List (Cue σ μ)) :
    (cues.foldl receive d).told = d.told := by
  induction cues generalizing d with
  | nil => rfl
  | cons cue rest ih => exact (ih (within_receive within cue)).trans (told_receive within cue)

def verdicts (d : Desk σ η μ) : List (Cue σ μ) → List (Nat × Event × Bool)
  | [] => []
  | .emit e :: rest => (d.now, e, d.isFull) :: (d.receive (.emit e)).verdicts rest
  | .hear learn given :: rest => (d.receive (.hear learn given)).verdicts rest

def taken (verdicts : List (Nat × Event × Bool)) : List Event :=
  (verdicts.filter fun v => !v.2.2).map fun v => v.2.1

theorem taken_append (verdicts more : List (Nat × Event × Bool)) :
    taken (verdicts ++ more) = taken verdicts ++ taken more := by
  simp [taken]

theorem accepted_receiveAll (d : Desk σ η μ) (cues : List (Cue σ μ)) :
    (cues.foldl receive d).accepted = d.accepted ++ taken (d.verdicts cues) := by
  induction cues generalizing d with
  | nil => exact (List.append_nil _).symm
  | cons cue rest ih =>
      rw [List.foldl_cons, ih]
      cases cue with
      | hear learn given => rfl
      | emit e =>
          rw [verdicts, receive]
          cases hfull : d.isFull <;> simp [taken]

/-- What comes of a desk by a script, with what the subscriber is handed and what its queue
refuses. -/
inductive Follows : Desk σ η μ → List (Moment σ μ) → List (Nat × Event) →
    List (Nat × Event × Bool) → Desk σ η μ → Prop
  | done (d : Desk σ η μ) : Follows d [] [] [] d
  | moment {d u v : Desk σ η μ} {m : Moment σ μ} {script : List (Moment σ μ)}
      {log later : List (Nat × Event)} {refused : List (Nat × Event × Bool)}
      (spends : Spends m.respite (m.cues.foldl receive d) log u)
      (rest : Follows u script later refused v) :
      Follows d (m :: script) (log ++ later) (d.verdicts m.cues ++ refused) v

theorem Follows.unique {script : List (Moment σ μ)} {told told' : List (Nat × Event)}
    {refused refused' : List (Nat × Event × Bool)} (h₁ : Follows d script told refused u)
    (h₂ : Follows d script told' refused' v) : told = told' ∧ refused = refused' ∧ u = v := by
  induction h₁ generalizing told' refused' v with
  | done =>
      cases h₂
      exact ⟨rfl, rfl, rfl⟩
  | moment spends _ ih =>
      cases h₂ with
      | moment spends' rest' =>
          obtain ⟨rfl, rfl⟩ := spends.unique spends'
          obtain ⟨rfl, rfl, rfl⟩ := ih rest'
          exact ⟨rfl, rfl, rfl⟩

end Desk

end Lifecycle.Subscribers
