import Lifecycle.Proofs.Subscribers.Habits

/-!
# Rounds of acts

An orderly row of acts is watched from one of the subscribers.  In each round some cues come to it,
and then its worker goes on until it has nothing left to do.
-/

namespace Lifecycle.Subscribers

namespace Hosting

open HasExecutor

variable {W σ τ η μ : Type} [DecidableEq σ] [Handling W σ τ η] [HasHabits W μ] {u v w : W}
  {k : Nat} {id : TaskId} {cues later : List (Cue σ μ)} {log more : List (Nat × Event)}

def Brings (k : Nat) (id : TaskId) (w : W) (cues : List (Cue σ μ)) (v : W) : Prop :=
  ∃ log verdicts, Burst k id w cues log verdicts v

theorem Brings.done (w : W) : Brings k id w [] w := ⟨_, _, .done w⟩

theorem Elsewhere.brings (h : Elsewhere k id w v) : Brings k id w [] v :=
  ⟨_, _, .elsewhere h (.done v)⟩

theorem Still.brings (h : Still k w v) : Brings k id w [] v := (Elsewhere.still h).brings

theorem Brings.trans (h₁ : Brings k id w cues v) (h₂ : Brings k id v later u) :
    Brings k id w (cues ++ later) u := by
  obtain ⟨log, verdicts, burst⟩ := h₁
  induction burst with
  | done => exact h₂
  | elsewhere elsewhere _ ih =>
      obtain ⟨_, _, hall⟩ := ih h₂
      exact ⟨_, _, .elsewhere elsewhere hall⟩
  | emit held _ ih =>
      obtain ⟨_, _, hall⟩ := ih h₂
      exact ⟨_, _, .emit held hall⟩
  | hear hears _ ih =>
      obtain ⟨_, _, hall⟩ := ih h₂
      exact ⟨_, _, .hear hears hall⟩

def Lapses (k : Nat) (id : TaskId) (w v : W) : Prop := ∃ log, Stretch k id w log v

theorem Lapses.done (w : W) : Lapses k id w w := ⟨_, .done w⟩

theorem Lapses.trans (h₁ : Lapses k id w v) (h₂ : Lapses k id v u) : Lapses k id w u := by
  obtain ⟨log, stretch⟩ := h₁
  induction stretch with
  | done => exact h₂
  | elsewhere elsewhere _ ih =>
      obtain ⟨_, hall⟩ := ih h₂
      exact ⟨_, .elsewhere elsewhere hall⟩
  | turn rests queued job turned _ ih =>
      obtain ⟨_, hall⟩ := ih h₂
      exact ⟨_, .turn rests queued job turned hall⟩
  | clock unready ahead due moved _ ih =>
      obtain ⟨_, hall⟩ := ih h₂
      exact ⟨_, .clock unready ahead due moved hall⟩

theorem Brings.lapses (h : Brings k id w [] v) : Lapses k id w v := by
  obtain ⟨log, verdicts, burst⟩ := h
  generalize hcues : ([] : List (Cue σ μ)) = cues at burst
  induction burst with
  | done w => exact .done w
  | elsewhere elsewhere _ ih =>
      obtain ⟨_, hall⟩ := ih hcues
      exact ⟨_, .elsewhere elsewhere hall⟩
  | emit | hear => cases hcues

end Hosting

namespace Scenario

open HasExecutor Hosting
open HasHabits (habit memory)

variable {w : World} {id : TaskId} {hands : Nat → Option (List Item)} {bus : Bus}
  {subs : List Subscriber} {asked : List Incident} {k : Nat} {acts : List Act}

/-! ## What acts bring to a subscriber -/

inductive Bid where
  | emit (e : Event)
  | unlatch (latch : String)
  deriving DecidableEq

def Bid.cue : Bid → Cue Signal (List String)
  | .emit e => .emit e
  | .unlatch latch => .hear (latch :: ·) [.latch latch]

def World.bids (w : World) (k : Nat) : Act → List Bid
  | .step (.emit e times) => if w.owned then List.replicate times (.emit e) else []
  | .step (.release latch) => if (w.subscriber k).heeds latch then [.unlatch latch] else []
  | _ => []

def Act.isDeaf : Act → Bool
  | .step .listen => false
  | _ => true

def Act.isBrief (k : Nat) : Act → Bool
  | .turn id => id != k
  | .clock _ => false
  | _ => true

theorem still_repeated {f : World → World} (each : ∀ w, Still k w (f w)) (times : Nat) (w : World) :
    Still k w (w.repeated times f) := by
  induction times with
  | zero => exact ⟨.of_eq rfl rfl rfl, rfl⟩
  | succ times ih =>
      rw [repeated_succ]
      exact Still.trans ih (each _)

theorem brings_emits (held : w.set.held = true) (e : Event) (times : Nat) :
    Brings k id w (List.replicate times (.emit e)) (w.repeated times (Hosting.input · (.emit e))) ∧
      (w.repeated times (Hosting.input · (.emit e))).set.held = true := by
  induction times with
  | zero => exact ⟨.done w, held⟩
  | succ times ih =>
      obtain ⟨hbrings, hheld⟩ := ih
      rw [repeated_succ, List.replicate_succ']
      refine ⟨hbrings.trans ⟨_, _, .emit hheld (.done _)⟩, ?_⟩
      rw [set_input, State.held_step rfl]
      exact hheld

theorem brings_release (w : World) (k : Nat) (id : TaskId) (latch : String) :
    Brings k id w ((w.bids k (.step (.release latch))).map Bid.cue)
      (w.take (.release latch)).1 := by
  rw [World.bids]
  split
  · rename_i hheeds
    have hmemory : memory (w.take (.release latch)).1 k = latch :: memory w k :=
      List.filter_cons_of_pos hheeds
    have hhears : Hears k (latch :: ·) [.latch latch] w (w.take (.release latch)).1 :=
      ⟨rfl, rfl, rfl, hmemory⟩
    exact ⟨_, _, .hear hhears (.done _)⟩
  · rename_i hother
    have hmemory : memory { w with opened := latch :: w.opened } k = memory w k :=
      List.filter_cons_of_neg hother
    have hopened : Still k w { w with opened := latch :: w.opened } := ⟨.of_eq rfl rfl rfl, hmemory⟩
    have hsignal : ¬(habit { w with opened := latch :: w.opened } k).signals (.latch latch) := by
      rintro ⟨_, ⟨⟩, hheeds⟩
      exact hother hheeds
    exact (hopened.trans (still_signal _ hsignal)).brings

theorem Kept.brings_turn (h : Kept bus subs asked none hands w) (queued : id ∈ w.executor.ready)
    (ne : k ≠ id) : Brings k k w [] (Hosted.runTurn w id) := by
  obtain ⟨t, task⟩ := Option.isSome_iff_exists.mp (h.ordered.queued id queued)
  cases t with
  | program p =>
      rw [h.runTurn_program queued task]
      exact (Elsewhere.turn (w := w) h.ordered.turn queued task ne).brings
  | shutdown =>
      have hforeign (p : Program (List Item)) : ¬Job w id p := fun job => by
        cases task.symm.trans job
      have hcall : Still k w (update w (·.call id)) :=
        still_call (w := w) h.ordered.turn (present_of_task task) hforeign
      have hclose : Elsewhere k k (update w (·.call id))
          (close (update w (·.call id)) id Task.shutdown) :=
        .close rfl (fun p job => hforeign p ((hcall.job id p).mp job)) (by simp [toTask]) ne
      have hclosing := (Still.brings hcall).trans hclose.brings
      rcases h.runTurn_shutdown queued task with hsame | ⟨hrunning, hgone, hsame⟩
      · rwa [hsame]
      · have hended : Still k (close (update w (·.call id)) id Task.shutdown)
            { close (update w (·.call id)) id Task.shutdown with closed := true } :=
          ⟨.of_eq rfl rfl rfl, rfl⟩
        have hretired := hended.trans (still_retire hrunning hgone)
        rw [hsame]
        exact hclosing.trans hretired.brings

theorem Kept.brings_act (h : Kept bus subs asked none hands w) {a : Act}
    (admitted : w.admits a = true) (deaf : a.isDeaf = true) (brief : a.isBrief k = true) :
    Brings k k w ((w.bids k a).map Bid.cue) (w.perform a) := by
  cases a with
  | turn id => exact h.brings_turn (List.contains_iff_mem.mp admitted) (bne_iff_ne.mp brief).symm
  | clock => cases brief
  | shutdown =>
      change Brings k k w [] _
      rw [World.perform]
      split
      · have hdisowned : Still k w { w with owned := false } := ⟨.of_eq rfl rfl rfl, rfl⟩
        have hnumbered : (executor { w with owned := false }).Numbered := h.ordered.toNumbered
        exact (hdisowned.trans (still_spawn hnumbered (by simp [toTask]))).brings
      · exact .done w
  | step s =>
      cases s with
      | publish e times => exact (still_repeated (fun w => still_publish w e) times w).brings
      | emit e times =>
          rw [World.bids, World.perform, World.take]
          split
          · rename_i howned
            rw [List.map_replicate]
            exact (brings_emits (h.owned howned).1 e times).1
          · exact .done w
      | tap | untap => exact Still.brings ⟨.of_eq rfl rfl rfl, rfl⟩
      | drain name =>
          change Brings k k w [] _
          rw [World.perform, World.take]
          split
          · exact .done w
          · exact Still.brings ⟨.of_eq rfl rfl rfl, rfl⟩
      | listen => cases deaf
      | dropSet =>
          change Brings k k w [] _
          rw [World.perform, World.take]
          split
          · have hdisowned : Still k w { w with owned := false } := ⟨.of_eq rfl rfl rfl, rfl⟩
            exact (Still.brings hdisowned).trans (Elsewhere.release _).brings
          · exact .done w
      | release latch => exact brings_release w k k latch
      | shutdown | advance | settle => cases admitted

theorem Kept.lapses_act (h : Kept bus subs asked none hands w) (inside : k < subs.length) {a : Act}
    (admitted : w.admits a = true) (deaf : a.isDeaf = true) (calm : w.bids k a = []) :
    Lapses k k w (w.perform a) := by
  by_cases brief : a.isBrief k = true
  · have hbrings := h.brings_act admitted deaf brief
    rw [calm] at hbrings
    exact hbrings.lapses
  · cases a with
    | turn id =>
        obtain rfl : id = k := by simpa [Act.isBrief] using brief
        have hqueued := List.contains_iff_mem.mp admitted
        obtain ⟨t, task⟩ := Option.isSome_iff_exists.mp (h.ordered.queued id hqueued)
        cases t with
        | shutdown => exact absurd inside (Nat.not_lt_of_le (h.aside_of_task task (by simp)))
        | program p =>
            exact ⟨_, .turn (w := w) h.ordered.turn hqueued task (h.runTurn_program hqueued task)
              (.done _)⟩
    | clock target =>
        simp only [World.admits, Bool.and_eq_true, List.isEmpty_iff, decide_eq_true_eq,
          List.all_eq_true] at admitted
        obtain ⟨⟨hquiet, hahead⟩, hdue⟩ := admitted
        refine ⟨_, .clock ?_ hahead (fun deadline armed => hdue _ armed) rfl (.done _)⟩
        rw [show (executor w).ready = [] from hquiet]
        exact List.not_mem_nil
    | shutdown | step => exact absurd rfl brief

/-! ## Rounds -/

/-- A row of acts in which something comes to a subscriber, and one in which its worker goes on. -/
structure Round where
  brief : List Act
  long : List Act

namespace World

def bidsOf (k : Nat) (w : World) : List Act → List Bid
  | [] => []
  | a :: rest => w.bids k a ++ (w.perform a).bidsOf k rest

def pass (w : World) (r : Round) : World := (w.after r.brief).after r.long

def allows (w : World) (k : Nat) (r : Round) : Bool :=
  w.orderly r.brief && r.brief.all (fun a => a.isDeaf && a.isBrief k) &&
    (w.after r.brief).orderly r.long && r.long.all Act.isDeaf &&
    ((w.after r.brief).bidsOf k r.long).isEmpty && !(w.pass r).executor.ready.contains k

def passAll (w : World) (rounds : List Round) : World := rounds.foldl pass w

def allowsAll (k : Nat) (w : World) : List Round → Bool
  | [] => true
  | r :: rest => w.allows k r && (w.pass r).allowsAll k rest

def bidsOfAll (k : Nat) (w : World) : List Round → List (List Bid × Nat)
  | [] => []
  | r :: rest => (w.bidsOf k r.brief, (w.pass r).executor.now) :: (w.pass r).bidsOfAll k rest

end World

def moment (m : List Bid × Nat) : Moment Signal (List String) := ⟨m.1.map Bid.cue, .through m.2⟩

theorem Kept.brings (h : Kept bus subs asked none hands w)
    (orderly : w.orderly acts = true) (brief : ∀ a ∈ acts, a.isDeaf = true ∧ a.isBrief k = true) :
    Brings k k w ((w.bidsOf k acts).map Bid.cue) (w.after acts) := by
  induction acts generalizing w asked hands with
  | nil => exact .done w
  | cons a rest ih =>
      rw [World.orderly_cons] at orderly
      obtain ⟨hdeaf, hbrief⟩ := brief a List.mem_cons_self
      obtain ⟨holds, hnext⟩ := h.perform a orderly.1
      rw [World.bidsOf, List.map_append]
      exact (h.brings_act orderly.1 hdeaf hbrief).trans
        (ih hnext orderly.2 fun b mem => brief b (List.mem_cons_of_mem _ mem))

theorem Kept.lapses (h : Kept bus subs asked none hands w) (inside : k < subs.length)
    (orderly : w.orderly acts = true) (deaf : ∀ a ∈ acts, a.isDeaf = true)
    (calm : w.bidsOf k acts = []) : Lapses k k w (w.after acts) := by
  induction acts generalizing w asked hands with
  | nil => exact .done w
  | cons a rest ih =>
      rw [World.orderly_cons] at orderly
      obtain ⟨hfirst, hrest⟩ := List.append_eq_nil_iff.mp calm
      obtain ⟨holds, hnext⟩ := h.perform a orderly.1
      exact (h.lapses_act inside orderly.1 (deaf a List.mem_cons_self) hfirst).trans
        (ih hnext orderly.2 (fun b mem => deaf b (List.mem_cons_of_mem _ mem)) hrest)

theorem Kept.performs {rounds : List Round} (h : Kept bus subs asked none hands w)
    (inside : k < subs.length) (allowed : w.allowsAll k rounds = true) :
    ∃ told refused,
      Performs k k w ((w.bidsOfAll k rounds).map moment) told refused (w.passAll rounds) := by
  induction rounds generalizing w asked hands with
  | nil => exact ⟨_, _, .done w⟩
  | cons r rest ih =>
      simp only [World.allowsAll, World.allows, Bool.and_eq_true, List.all_eq_true,
        List.isEmpty_iff, Bool.not_eq_true', List.contains_eq_mem,
        decide_eq_false_iff_not] at allowed
      obtain ⟨⟨⟨⟨⟨⟨horderly, hbrief⟩, hgoing⟩, hdeaf⟩, hcalm⟩, hunready⟩, hrest⟩ := allowed
      obtain ⟨_, hfirst⟩ := h.run horderly
      obtain ⟨_, hnext⟩ := hfirst.run hgoing
      obtain ⟨_, _, hburst⟩ := h.brings horderly hbrief
      obtain ⟨_, hstretch⟩ := hfirst.lapses inside hgoing hdeaf hcalm
      obtain ⟨_, _, hperforms⟩ := ih hnext hrest
      exact ⟨_, _, .moment hburst (.through hstretch hunready) hperforms⟩

end Scenario

end Lifecycle.Subscribers
