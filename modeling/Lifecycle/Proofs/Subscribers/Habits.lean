import Lifecycle.Proofs.Subscribers.Moments
import Lifecycle.Proofs.Subscribers.Worlds

/-!
# The habits of scripted subscribers

A scripted subscriber goes by the time and by the latches that it waits for.  So the worlds of
scenarios are secluded, and each orderly row of acts can be watched from one of the subscribers.
-/

namespace Lifecycle.Subscribers.Scenario

open HasExecutor Hosting
open HasHabits (habit memory)

variable {time : Nat} {opened others : List String} {items next : List Item}
  {signals : List Signal} {deadline : Option Nat} {p q : Pause} {latches : List String}

/-! ## Scripts -/

def goOn (time : Nat) (opened : List String) : List Item → HandlerTurn Signal (List Item)
  | [] => .ended none
  | .panic p :: _ => .ended (some p.info)
  | .pause p :: rest =>
      match p.poll time opened with
      | none => goOn time opened rest
      | some (p, latches, deadline) => .waiting (.pause p :: rest) (latches.map .latch) deadline

theorem runHandler_eq (w : World) (items : List Item) :
    runHandler w items = (w, goOn w.executor.now w.opened items) := by
  induction items with
  | nil => rfl
  | cons item rest ih =>
      cases item with
      | panic p => rfl
      | pause p =>
          rw [goOn]
          cases hpoll : p.poll w.executor.now w.opened with
          | none =>
              rw [← ih]
              simp [runHandler, runScript, act, Pause.react, hpoll]
          | some wait => simp [runHandler, runScript, act, Pause.react, hpoll]

theorem poll_waits (polled : p.poll time opened = some (q, latches, deadline)) :
    (∀ latch, q = .hold latch → p = .hold latch) ∧ (∀ latch ∈ latches, p = .hold latch) ∧
      ∀ t, deadline = some t → time < t := by
  cases p with
  | hang =>
      cases polled
      simp
  | hold latch =>
      rw [Pause.poll] at polled
      split at polled <;> cases polled
      simp
  | sleep ms =>
      rw [Pause.poll] at polled
      split at polled <;> cases polled
      refine ⟨by simp, by simp, ?_⟩
      rintro t ⟨⟩
      omega
  | «until» t =>
      rw [Pause.poll] at polled
      split at polled <;> cases polled
      refine ⟨by simp, by simp, ?_⟩
      rintro t ⟨⟩
      omega

theorem poll_congr
    (same : ∀ latch, p = .hold latch → opened.contains latch = others.contains latch) :
    p.poll time opened = p.poll time others := by
  cases p with
  | hold latch => rw [Pause.poll, Pause.poll, same latch rfl]
  | sleep | «until» | hang => rfl

theorem goOn_waits (waits : goOn time opened items = .waiting next signals deadline) :
    (∀ latch, .pause (.hold latch) ∈ next → .pause (.hold latch) ∈ items) ∧
      (∀ s ∈ signals, ∃ latch, s = .latch latch ∧ .pause (.hold latch) ∈ items) ∧
      ∀ t, deadline = some t → time < t := by
  induction items with
  | nil => cases waits
  | cons item rest ih =>
      cases item with
      | panic => cases waits
      | pause p =>
          rw [goOn] at waits
          cases hpoll : p.poll time opened with
          | none =>
              rw [hpoll] at waits
              obtain ⟨hnext, hsignals, hahead⟩ := ih waits
              refine ⟨fun latch mem => List.mem_cons_of_mem _ (hnext latch mem), fun s mem => ?_,
                hahead⟩
              obtain ⟨latch, hs, hmem⟩ := hsignals s mem
              exact ⟨latch, hs, List.mem_cons_of_mem _ hmem⟩
          | some wait =>
              obtain ⟨q, latches, t⟩ := wait
              obtain ⟨hpause, hlatches, hahead⟩ := poll_waits hpoll
              rw [hpoll] at waits
              cases waits
              refine ⟨fun latch mem => ?_, fun s mem => ?_, hahead⟩
              · rcases List.mem_cons.mp mem with hq | hrest
                · rw [hpause latch (Item.pause.inj hq).symm]
                  exact List.mem_cons_self
                · exact List.mem_cons_of_mem _ hrest
              · obtain ⟨latch, hlatch, rfl⟩ := List.mem_map.mp mem
                exact ⟨latch, rfl, hlatches latch hlatch ▸ List.mem_cons_self⟩

theorem goOn_congr (same : ∀ latch, .pause (.hold latch) ∈ items →
      opened.contains latch = others.contains latch) :
    goOn time opened items = goOn time others items := by
  induction items with
  | nil => rfl
  | cons item rest ih =>
      cases item with
      | panic => rfl
      | pause p =>
          have hrest := ih fun latch mem => same latch (List.mem_cons_of_mem _ mem)
          have hpoll : p.poll time opened = p.poll time others := poll_congr fun latch hp =>
            same latch (hp ▸ List.mem_cons_self)
          rw [goOn, goOn, hpoll, hrest]

/-! ## Habits -/

def Subscriber.heeds (s : Subscriber) (latch : String) : Bool := s.pauses.contains (.hold latch)

theorem heeds_of_mem_script {s : Subscriber} {e : Event} {latch : String}
    (mem : .pause (.hold latch) ∈ s.script e) : s.heeds latch = true := by
  rw [Subscriber.script] at mem
  simpa [Subscriber.heeds] using mem

/-- A subscriber remembers which of the latches that it waits for are open. -/
def Subscriber.habit (s : Subscriber) : Habit Signal (List Item) (List String) where
  call _ opened e := (opened, s.script e)
  run time opened items := (opened, goOn time opened items)
  places items := ∀ latch, .pause (.hold latch) ∈ items → s.heeds latch = true
  signals a := ∃ latch, a = .latch latch ∧ s.heeds latch = true
  call_places _ _ _ _ := heeds_of_mem_script
  run_places places waits latch mem := places latch ((goOn_waits waits).1 latch mem)
  run_signals places waits a mem := by
    obtain ⟨latch, ha, hmem⟩ := (goOn_waits waits).2.1 a mem
    exact ⟨latch, ha, places latch hmem⟩
  run_ahead _ waits := (goOn_waits waits).2.2 _ rfl

def World.subscriber (w : World) (k : Nat) : Subscriber :=
  (w.subscribers[k]?).getD { name := "", diary := none }

instance : HasHabits World (List String) where
  habit w k := (w.subscriber k).habit
  memory w k := w.opened.filter (w.subscriber k).heeds

theorem runHandler_habit (w : World) (k : Nat) {items : List Item}
    (places : (habit w k).places items) :
    (runHandler w items).2 = ((habit w k).run w.executor.now (memory w k) items).2 := by
  rw [runHandler_eq]
  refine goOn_congr fun latch mem => ?_
  have hheeds := places latch mem
  rw [Bool.eq_iff_iff, List.contains_iff_mem, List.contains_iff_mem]
  exact (List.mem_filter.trans (and_iff_left hheeds)).symm

theorem callHandler_notes (w : World) (k : Nat) (e : Event) :
    ∃ notes lines, (callHandler w k e).1 = { w with notes, lines } := by
  rw [callHandler]
  split
  · exact ⟨_, _, rfl⟩
  · dsimp only
    split <;> exact ⟨_, _, rfl⟩

instance : Secluded World where
  habit_withExecutor _ _ _ := rfl
  habit_withState _ _ _ := rfl
  habit_withBus _ _ _ := rfl
  memory_withExecutor _ _ _ := rfl
  memory_withState _ _ _ := rfl
  memory_withBus _ _ _ := rfl
  called w k e := by
    have hscript : (callHandler w k e).2 = (w.subscriber k).script e := by
      rw [callHandler, World.subscriber]
      cases w.subscribers[k]? <;> rfl
    obtain ⟨notes, lines, hnoted⟩ := callHandler_notes w k e
    change (memory (callHandler w k e).1 k, (callHandler w k e).2) = _
    rw [hnoted, hscript]
    rfl
  ran w k items places := by
    refine Prod.ext ?_ (runHandler_habit w k places)
    change memory (runHandler w items).1 k = _
    rw [runHandler_eq]
    rfl
  outside w k s := by
    rintro ⟨latch, hlatch, _⟩
    cases hlatch
  quiet_call w j e k := by
    obtain ⟨notes, lines, hnoted⟩ := callHandler_notes w j e
    change Quiet k w (callHandler w j e).1
    rw [hnoted]
    exact .of_eq rfl rfl rfl
  quiet_run w j items k := by
    change Quiet k w (runHandler w items).1
    rw [runHandler_eq]
    exact .of_eq rfl rfl rfl
  memory_call w j e k _ := by
    obtain ⟨notes, lines, hnoted⟩ := callHandler_notes w j e
    change memory (callHandler w j e).1 k = memory w k
    rw [hnoted]
    rfl
  memory_run w j items k _ := by
    change memory (runHandler w items).1 k = memory w k
    rw [runHandler_eq]

end Lifecycle.Subscribers.Scenario
