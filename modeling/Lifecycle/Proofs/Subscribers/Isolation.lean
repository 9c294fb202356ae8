import Lifecycle.Proofs.Subscribers.Rounds

/-!
# Subscribers are isolated

Two sets that do not listen may have one subscriber in common and differ in all the others: in how
many there are and in which order, in their queues, in how long they take and in their panics.  If
the same events are emitted to both sets at the same times, the subscriber cannot tell the one from
the other.  Where its worker has a turn at the very time of an event, the script also says which of
the two comes first; of the turns and waits of all other tasks it says nothing.
-/

namespace Lifecycle.Subscribers

namespace Hosting

open HasExecutor
open HasHabits (habit memory)

variable {W₁ W₂ σ τ₁ τ₂ η μ : Type} [DecidableEq σ] [Handling W₁ σ τ₁ η] [Handling W₂ σ τ₂ η]
  [HasHabits W₁ μ] [HasHabits W₂ μ] [Secluded W₁] [Secluded W₂] {subs₁ subs₂ : List (String × Nat)}
  {start₁ w₁ : W₁} {start₂ w₂ : W₂} {k₁ k₂ capacity : Nat} {name₁ name₂ : String}
  {script : List (Moment σ μ)} {told₁ told₂ : List (Nat × Event)}
  {refused₁ refused₂ : List (Nat × Event × Bool)}

/-- A subscriber with the same habit and the same capacity, to whom the same script is performed, is
handed the same events in the same order at the same times, and its queue refuses the same events;
and nothing that it is handed is missing in the record. -/
theorem subscribers_are_isolated (fresh₁ : Fresh subs₁ start₁) (fresh₂ : Fresh subs₂ start₂)
    (subscriber₁ : subs₁[k₁]? = some (name₁, capacity))
    (subscriber₂ : subs₂[k₂]? = some (name₂, capacity)) (same_time : now start₁ = now start₂)
    (same_habit : habit start₁ k₁ = habit start₂ k₂)
    (same_memory : memory start₁ k₁ = memory start₂ k₂)
    (performs₁ : Performs k₁ ((executor start₁).nextTask + k₁) (Hosting.start start₁) script told₁
      refused₁ w₁)
    (performs₂ : Performs k₂ ((executor start₂).nextTask + k₂) (Hosting.start start₂) script told₂
      refused₂ w₂) :
    told₁ = told₂ ∧ refused₁ = refused₂ ∧ Records k₁ told₁ refused₁ w₁ ∧
      Records k₂ told₂ refused₂ w₂ := by
  have hdesk₁ := fresh₁.atDesk subscriber₁
  have hdesk₂ := fresh₂.atDesk subscriber₂
  rw [← same_time, ← same_habit, ← same_memory] at hdesk₂
  obtain ⟨v₁, hfollows₁, _⟩ := performs₁.follows hdesk₁
  obtain ⟨v₂, hfollows₂, _⟩ := performs₂.follows hdesk₂
  obtain ⟨htold, hrefused, _⟩ := hfollows₁.unique hfollows₂
  exact ⟨htold, hrefused, fresh₁.records subscriber₁ performs₁,
    fresh₂.records subscriber₂ performs₂⟩

end Hosting

namespace Scenario

open HasExecutor Hosting

def steady : Subscriber :=
  { name := "steady", capacity := 1, diary := some "steady", pauses := [.hold "gate", .sleep 5] }

/-- The queue refuses the second event, and the third one comes while the first is in hand. -/
def solitude : List Round :=
  [⟨[.step (.emit (.of .taskStarted) 1), .step (.emit (.of .errorReported) 1)], [.turn 0]⟩,
    ⟨[.step (.emit (.of .taskFinished) 1), .step (.release "gate")],
      [.turn 0, .clock 5, .turn 0, .clock 7]⟩]

def company : List Round :=
  [⟨[.step (.emit (.of .taskStarted) 1), .turn 1, .step (.release "latch"),
      .step (.emit (.of .errorReported) 1), .turn 1], [.turn 2, .turn 0]⟩,
    ⟨[.step (.emit (.of .taskFinished) 1), .turn 0, .step (.release "gate")],
      [.turn 1, .turn 2, .clock 5, .turn 2, .clock 7]⟩]

def offers : List (List Bid × Nat) :=
  [([.emit (.of .taskStarted), .emit (.of .errorReported)], 0),
    ([.emit (.of .taskFinished), .unlatch "gate"], 7)]

theorem subscribers_are_isolated_in_company :
    ∃ told refused,
      Performs 0 0 (World.ofSubscribers 8 [steady]) (offers.map moment) told refused
        ((World.ofSubscribers 8 [steady]).passAll solitude) ∧
      Performs 2 2 (World.ofSubscribers 8 (crew ++ [steady])) (offers.map moment) told refused
        ((World.ofSubscribers 8 (crew ++ [steady])).passAll company) ∧
      told.map Prod.snd = [.of .taskStarted, .of .taskFinished] ∧
      Desk.taken refused = [.of .taskStarted, .of .taskFinished] := by
  have hoffers : (World.ofSubscribers 8 [steady]).bidsOfAll 0 solitude = offers := by
    decide +kernel
  have hoffers' : (World.ofSubscribers 8 (crew ++ [steady])).bidsOfAll 2 company = offers := by
    decide +kernel
  have hallowed : (World.ofSubscribers 8 [steady]).allowsAll 0 solitude = true := by
    decide +kernel
  have hallowed' : (World.ofSubscribers 8 (crew ++ [steady])).allowsAll 2 company = true := by
    decide +kernel
  obtain ⟨told, refused, hperforms⟩ :=
    (kept_ofSubscribers 8 [steady]).performs (by simp) hallowed
  obtain ⟨told', refused', hperforms'⟩ :=
    (kept_ofSubscribers 8 (crew ++ [steady])).performs (by simp [crew]) hallowed'
  rw [hoffers] at hperforms
  rw [hoffers'] at hperforms'
  have hfresh := fresh_unmanned 8 [steady]
  have hfresh' := fresh_unmanned 8 (crew ++ [steady])
  have hsteady : ([steady].map fun s => (s.name, s.capacity))[0]? = some ("steady", 1) := rfl
  have hsteady' : ((crew ++ [steady]).map fun s => (s.name, s.capacity))[2]? = some ("steady", 1) :=
    rfl
  obtain ⟨rfl, rfl, hrecords, hrecords'⟩ := subscribers_are_isolated hfresh hfresh' hsteady hsteady'
    rfl rfl rfl hperforms hperforms'
  refine ⟨told, refused, hperforms, hperforms', ?_, ?_⟩
  · refine hrecords'.told.symm.trans ?_
    decide +kernel
  · refine hrecords'.accepted.symm.trans ?_
    decide +kernel

end Scenario

end Lifecycle.Subscribers
