import Lifecycle.Proofs.Subscribers.Seat

/-!
# Moments of a run

A run is watched from one subscriber.  At some moments cues come to it, and in between its worker is
left to itself; all else goes on in any order.  What the subscriber is handed and what its queue
refuses follow from its desk and the cues.
-/

namespace Lifecycle.Subscribers.Hosting

open HasExecutor
open HasHabits (habit memory)

variable {W σ τ η μ : Type} {base k : Nat} {id : TaskId} {d : Desk σ η μ}

/-! ## What is watched -/

section Watching

def toldOf [Hosting W σ τ η] (w : W) (k : Nat) : List Event :=
  (state w).channels[k]?.elim [] fun c => c.accepted.take c.handed

def acceptedOf [Hosting W σ τ η] (w : W) (k : Nat) : List Event :=
  (state w).channels[k]?.elim [] Channel.accepted

def refuses [Hosting W σ τ η] (w : W) (k : Nat) : Bool := (state w).channels[k]?.any Channel.isFull

variable [Handling W σ τ η] [HasHabits W μ] {w : W}

theorem AtDesk.toldOf (h : AtDesk base k w d) : Hosting.toldOf w k = d.told := by
  obtain ⟨c, channel, shows, _⟩ := h.channel
  rw [Hosting.toldOf, channel, Desk.told, ← shows.handed, ← shows.accepted]
  rfl

theorem AtDesk.acceptedOf (h : AtDesk base k w d) : Hosting.acceptedOf w k = d.accepted := by
  obtain ⟨c, channel, shows, _⟩ := h.channel
  rw [Hosting.acceptedOf, channel, ← shows.accepted]
  rfl

theorem AtDesk.refuses (h : AtDesk base k w d) : Hosting.refuses w k = d.isFull := by
  obtain ⟨c, channel, shows, _⟩ := h.channel
  rw [Hosting.refuses, channel, ← shows.isFull]
  rfl

end Watching

variable [DecidableEq σ] [Handling W σ τ η] [HasHabits W μ] {u v w x : W}
  {log more : List (Nat × Event)} {verdicts : List (Nat × Event × Bool)} {cues : List (Cue σ μ)}
  {script : List (Moment σ μ)} {respite : Respite}

inductive Elsewhere (k : Nat) (id : TaskId) : W → W → Prop
  | still {w v : W} (still : Still k w v) : Elsewhere k id w v
  | release (w : W) : Elsewhere k id w (input w .release)
  | turn {w : W} {other : TaskId} {p : Program η} (rests : (executor w).running = none)
      (queued : other ∈ (executor w).ready) (job : Job w other p) (ne : id ≠ other) :
      Elsewhere k id w (update (Handling.turn (update w (·.call other)) p).1
        (·.left other (Handling.turn (update w (·.call other)) p).2))
  | close {w : W} {other : TaskId} {program : τ} (turn : (executor w).running = some other)
      (apart : ∀ p, ¬Job w other p) (foreign : ∀ p, program ≠ Hosting.toTask W p)
      (ne : id ≠ other) : Elsewhere k id w (close w other program)

/-- Cues come to the subscriber before its worker has a turn.  With them stands what the subscriber
is handed, and which of the events its queue refuses. -/
inductive Burst (k : Nat) (id : TaskId) :
    W → List (Cue σ μ) → List (Nat × Event) → List (Nat × Event × Bool) → W → Prop
  | done (w : W) : Burst k id w [] [] [] w
  | elsewhere {w v u : W} {cues : List (Cue σ μ)} {log : List (Nat × Event)}
      {verdicts : List (Nat × Event × Bool)} (elsewhere : Elsewhere k id w v)
      (rest : Burst k id v cues log verdicts u) :
      Burst k id w cues (timed (now w) (toldOf w k) (toldOf v k) ++ log) verdicts u
  | emit {w u : W} {e : Event} {cues : List (Cue σ μ)} {log : List (Nat × Event)}
      {verdicts : List (Nat × Event × Bool)} (held : (state w).held = true)
      (rest : Burst k id (input w (.emit e)) cues log verdicts u) :
      Burst k id w (.emit e :: cues)
        (timed (now w) (toldOf w k) (toldOf (input w (.emit e)) k) ++ log)
        ((now w, e, refuses w k) :: verdicts) u
  | hear {w v u : W} {learn : μ → μ} {given : List σ} {cues : List (Cue σ μ)}
      {log : List (Nat × Event)} {verdicts : List (Nat × Event × Bool)}
      (hears : Hears k learn given w v) (rest : Burst k id v cues log verdicts u) :
      Burst k id w (.hear learn given :: cues)
        (timed (now w) (toldOf w k) (toldOf v k) ++ log) verdicts u

/-- Nothing comes to the subscriber: its worker has turns, and time passes while the worker does not
wait for one. -/
inductive Stretch (k : Nat) (id : TaskId) : W → List (Nat × Event) → W → Prop
  | done (w : W) : Stretch k id w [] w
  | elsewhere {w v u : W} {log : List (Nat × Event)} (elsewhere : Elsewhere k id w v)
      (rest : Stretch k id v log u) :
      Stretch k id w (timed (now w) (toldOf w k) (toldOf v k) ++ log) u
  | turn {w v u : W} {p : Program η} {log : List (Nat × Event)}
      (rests : (executor w).running = none) (queued : id ∈ (executor w).ready) (job : Job w id p)
      (turned : v = update (Handling.turn (update w (·.call id)) p).1
        (·.left id (Handling.turn (update w (·.call id)) p).2))
      (rest : Stretch k id v log u) :
      Stretch k id w (timed (now w) (toldOf w k) (toldOf v k) ++ log) u
  | clock {w v u : W} {time : Nat} {log : List (Nat × Event)} (unready : id ∉ (executor w).ready)
      (ahead : now w ≤ time)
      (due : ∀ deadline, ⟨deadline, id⟩ ∈ (executor w).timers → time ≤ deadline)
      (moved : v = update w (·.moveClock time)) (rest : Stretch k id v log u) :
      Stretch k id w (timed (now w) (toldOf w k) (toldOf v k) ++ log) u

inductive Passage (k : Nat) (id : TaskId) : W → Respite → List (Nat × Event) → W → Prop
  | none (w : W) : Passage k id w .none [] w
  | upTo {w v : W} {time : Nat} {log : List (Nat × Event)} (stretch : Stretch k id w log v)
      (unready : id ∉ (executor v).ready) (ahead : now v < time)
      (due : ∀ deadline, ⟨deadline, id⟩ ∈ (executor v).timers → time ≤ deadline) :
      Passage k id w (.upTo time) log (update v (·.moveClock time))
  | through {w v : W} {log : List (Nat × Event)} (stretch : Stretch k id w log v)
      (unready : id ∉ (executor v).ready) : Passage k id w (.through (now v)) log v

/-- A run in which the cues of the script come to the subscriber, with what the subscriber is handed
and which of the emitted events its queue refuses. -/
inductive Performs (k : Nat) (id : TaskId) :
    W → List (Moment σ μ) → List (Nat × Event) → List (Nat × Event × Bool) → W → Prop
  | done (w : W) : Performs k id w [] [] [] w
  | moment {w v u x : W} {m : Moment σ μ} {script : List (Moment σ μ)}
      {log more told : List (Nat × Event)} {verdicts refused : List (Nat × Event × Bool)}
      (burst : Burst k id w m.cues log verdicts v) (passage : Passage k id v m.respite more u)
      (rest : Performs k id u script told refused x) :
      Performs k id w (m :: script) (log ++ more ++ told) (verdicts ++ refused) x

/-! ## What follows from the desk -/

theorem Elsewhere.happens (h : Elsewhere k id w v) : ∃ more, Happens w more v := by
  cases h with
  | still still => exact ⟨_, .conduct (.of_frame still.toFrame)⟩
  | release => exact ⟨_, .conduct (.of_ask w .release rfl (by simp))⟩
  | turn rests queued job => exact ⟨_, .turn rests queued job⟩
  | close turn apart foreign => exact ⟨_, .close turn apart foreign⟩

variable [Secluded W]

theorem avoids_shutDown (w : W) (k : Nat) (id : TaskId) :
    Avoids k id w (Hosting.shutDown w).1 :=
  shutDown_keeps (.refl w) (fun v h => h.trans (avoids_input v .stop trivial id))
    fun v h => h.trans (avoids_input v .release trivial id)

theorem Elsewhere.avoids (elsewhere : Elsewhere k (base + k) w v) (h : AtDesk base k w d) :
    Avoids k (base + k) w v := by
  cases elsewhere with
  | still still => exact still.avoids _
  | release => exact avoids_input w .release trivial _
  | @turn other p rests queued job ne =>
      cases p with
      | listener => exact absurd job (h.no_listener other)
      | worker j hand =>
          obtain ⟨log, hcrewed⟩ := h.crewed
          obtain rfl := (hcrewed.placed _ j hand job).1
          have hne : j ≠ k := by
            rintro rfl
            exact ne rfl
          obtain ⟨_, hatWork, _⟩ := hcrewed.serves rests job
          exact ((avoids_call w ne).trans (avoids_turn _ hne _ hand)).trans
            (avoids_left _ (hatWork.holds _ rfl).2 ne _)
  | @close other program turn _ _ ne =>
      have hdown := avoids_shutDown w k (base + k)
      have hrunning := (beside_shutDown w).2.trans turn
      rw [Hosting.close]
      generalize Hosting.shutDown w = result at hdown hrunning
      obtain ⟨v, signals⟩ := result
      cases signals with
      | nil => exact hdown
      | cons s rest => exact hdown.trans (avoids_left v hrunning ne _)

theorem AtDesk.elsewhere (h : AtDesk base k w d) (elsewhere : Elsewhere k (base + k) w v) :
    AtDesk base k v d := by
  obtain ⟨log, hcrewed⟩ := h.crewed
  obtain ⟨more, happens⟩ := elsewhere.happens
  exact h.avoids (elsewhere.avoids h) (hcrewed.happens happens)

theorem Burst.receives (burst : Burst k (base + k) w cues log verdicts u) (h : AtDesk base k w d) :
    log = [] ∧ verdicts = d.verdicts cues ∧ AtDesk base k u (cues.foldl Desk.receive d) := by
  -- The worker has no turn, so nothing is handed on, and each record is empty.
  induction burst generalizing d with
  | done => exact ⟨rfl, rfl, h⟩
  | elsewhere elsewhere _ ih =>
      have hnext := h.elsewhere elsewhere
      obtain ⟨rfl, hverdicts, hdesk⟩ := ih hnext
      rw [h.toldOf, hnext.toldOf, timed_self]
      exact ⟨rfl, hverdicts, hdesk⟩
  | @emit w u e cues log verdicts held _ ih =>
      have hnext := h.emit held e
      obtain ⟨rfl, rfl, hdesk⟩ := ih hnext
      rw [h.toldOf, hnext.toldOf, Desk.told_receive h.within, timed_self, h.refuses, h.now]
      exact ⟨rfl, rfl, hdesk⟩
  | hear hears _ ih =>
      have hnext := h.hear hears
      obtain ⟨rfl, rfl, hdesk⟩ := ih hnext
      rw [h.toldOf, hnext.toldOf, Desk.told_receive h.within, timed_self]
      exact ⟨rfl, rfl, hdesk⟩

theorem Stretch.passes (stretch : Stretch k (base + k) w log u) (h : AtDesk base k w d) :
    ∃ v, AtDesk base k u v ∧ ∀ target limit more v',
      Desk.Passes target limit v more v' → Desk.Passes target limit d (log ++ more) v' := by
  -- Each step is put before what comes of the desk after it.  Time that passes elsewhere only stops
  -- the clock on its way, so the deadlines at the desk are met all the same.
  induction stretch generalizing d with
  | done => exact ⟨d, h, fun _ _ _ _ passes => passes⟩
  | elsewhere elsewhere _ ih =>
      have hnext := h.elsewhere elsewhere
      obtain ⟨v, hdesk, hpasses⟩ := ih hnext
      rw [h.toldOf, hnext.toldOf, timed_self]
      exact ⟨v, hdesk, hpasses⟩
  | turn rests queued job turned _ ih =>
      have hnext := turned ▸ h.turn rests queued job
      obtain ⟨v, hdesk, hpasses⟩ := ih hnext
      rw [h.toldOf, hnext.toldOf, h.now]
      refine ⟨v, hdesk, fun target limit more v' passes => ?_⟩
      rw [List.append_assoc]
      exact (hpasses target limit more v' passes).turn
  | clock unready ahead due moved _ ih =>
      have hnext := moved ▸ h.clock unready due
      obtain ⟨v, hdesk, hpasses⟩ := ih hnext
      rw [h.toldOf, hnext.toldOf, Desk.told_moveClock, timed_self]
      exact ⟨v, hdesk, fun target limit more v' passes =>
        (hpasses target limit more v' passes).moveClock (h.rests unready) (h.now ▸ ahead)
          fun deadline armed => due deadline (h.armed armed)⟩

theorem Passage.spends (passage : Passage k (base + k) w respite log u) (h : AtDesk base k w d) :
    ∃ v, Desk.Spends respite d log v ∧ AtDesk base k u v := by
  cases passage with
  | none => exact ⟨d, .none d, h⟩
  | @upTo _ time _ stretch unready ahead due =>
      obtain ⟨v, hdesk, hpasses⟩ := stretch.passes h
      have hall := hpasses time time _ _ (.rests (hdesk.rests unready) (hdesk.now ▸ ahead)
        fun deadline armed => due deadline (hdesk.armed armed))
      rw [List.append_nil] at hall
      exact ⟨_, .upTo hall, hdesk.clock unready due⟩
  | through stretch unready =>
      obtain ⟨v, hdesk, hpasses⟩ := stretch.passes h
      have hall := hpasses v.now _ _ _
        (.rests (hdesk.rests unready) (Nat.lt_succ_self _) hdesk.later)
      rw [List.append_nil, Desk.moveClock_of_later hdesk.later] at hall
      rw [hdesk.now]
      exact ⟨v, .through hall, hdesk⟩

theorem Performs.follows {told : List (Nat × Event)} {refused : List (Nat × Event × Bool)}
    (performs : Performs k (base + k) w script told refused x) (h : AtDesk base k w d) :
    ∃ v, d.Follows script told refused v ∧ AtDesk base k x v := by
  induction performs generalizing d with
  | done => exact ⟨d, .done d, h⟩
  | moment burst passage _ ih =>
      obtain ⟨rfl, rfl, hdesk⟩ := burst.receives h
      obtain ⟨u, hspends, hnext⟩ := passage.spends hdesk
      obtain ⟨v, hfollows, hlast⟩ := ih hnext
      exact ⟨v, .moment hspends hfollows, hlast⟩

theorem Performs.accounts {told : List (Nat × Event)} {refused : List (Nat × Event × Bool)}
    (performs : Performs k (base + k) w script told refused x) (h : AtDesk base k w d) :
    toldOf x k = toldOf w k ++ told.map Prod.snd ∧
      acceptedOf x k = acceptedOf w k ++ Desk.taken refused := by
  induction performs generalizing d with
  | done => exact ⟨(List.append_nil _).symm, (List.append_nil _).symm⟩
  | moment burst passage _ ih =>
      obtain ⟨rfl, rfl, hreceived⟩ := burst.receives h
      obtain ⟨u, hspends, hnext⟩ := passage.spends hreceived
      obtain ⟨haccepted, htold⟩ := hspends.told
      obtain ⟨hlater, htaken⟩ := ih hnext
      rw [hlater, htaken, hnext.toldOf, hnext.acceptedOf, h.toldOf, h.acceptedOf, haccepted, htold,
        Desk.told_receiveAll h.within, Desk.accepted_receiveAll, Desk.taken_append]
      simp

/-! ## The first desk -/

theorem start_keeps (w : W) (k : Nat) :
    now (Hosting.start w) = now w ∧ habit (Hosting.start w) k = habit w k ∧
      memory (Hosting.start w) k = memory w k := by
  have hfold (ids : List Nat) (v : W)
      (same : now v = now w ∧ habit v k = habit w k ∧ memory v k = memory w k) :
      now (ids.foldl (fun w j => spawn w (Hosting.toTask W (.worker j none))) v) = now w ∧
        habit (ids.foldl (fun w j => spawn w (Hosting.toTask W (.worker j none))) v) k =
          habit w k ∧
        memory (ids.foldl (fun w j => spawn w (Hosting.toTask W (.worker j none))) v) k =
          memory w k := by
    induction ids generalizing v with
    | nil => exact same
    | cons j rest ih =>
        exact ih _ ⟨(now_update v _).trans same.1, (habit_update v _ k).trans same.2.1,
          (memory_update v _ k).trans same.2.2⟩
  exact hfold _ w ⟨rfl, rfl, rfl⟩

theorem Fresh.atDesk {subs : List (String × Nat)} {start : W} {s : String × Nat}
    (fresh : Fresh subs start) (subscriber : subs[k]? = some s) :
    AtDesk (executor start).nextTask k (Hosting.start start)
      (Desk.ofCapacity (now start) (habit start k) (memory start k) s.2) := by
  have hstate := fresh.started.state.trans fresh.state
  obtain ⟨hnow, hhabit, hmemory⟩ := start_keeps start k
  refine ⟨⟨[], fresh.crewed⟩, by rw [hstate]; rfl, hnow, hhabit, hmemory, .ofCapacity s.1 s.2, ?_,
    ⟨rfl, rfl, rfl⟩, .free (by simp [Channel.ofCapacity])⟩
  rw [hstate, List.getElem?_map, subscriber]
  rfl

structure Records (k : Nat) (told : List (Nat × Event)) (refused : List (Nat × Event × Bool))
    (w : W) : Prop where
  told : toldOf w k = told.map Prod.snd
  accepted : acceptedOf w k = Desk.taken refused

theorem Fresh.records {subs : List (String × Nat)} {start : W} {s : String × Nat}
    {told : List (Nat × Event)} {refused : List (Nat × Event × Bool)} (fresh : Fresh subs start)
    (subscriber : subs[k]? = some s) (performs : Performs k ((executor start).nextTask + k)
      (Hosting.start start) script told refused x) : Records k told refused x := by
  have hdesk := fresh.atDesk subscriber
  obtain ⟨htold, haccepted⟩ := performs.accounts hdesk
  rw [hdesk.toldOf] at htold
  rw [hdesk.acceptedOf] at haccepted
  exact ⟨htold, haccepted⟩

end Lifecycle.Subscribers.Hosting
