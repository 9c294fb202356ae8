import Lifecycle.Bus

/-!
# What is on a bus

Events are on the bus in the order in which they were published, each with its number.
-/

namespace Lifecycle

theorem Bus.published_foldl (events : List Event) (bus : Bus) :
    (events.foldl publish bus).published.toList =
      bus.published.toList ++ events.mapIdx fun n e => { e with seq := bus.count + n + 1 } := by
  induction events generalizing bus with
  | nil => simp
  | cons e rest ih =>
      rw [List.foldl_cons, ih, List.mapIdx_cons]
      simp [publish, count, Nat.add_assoc, Nat.add_comm 1]

end Lifecycle
