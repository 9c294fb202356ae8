import Lifecycle.Proofs.Debouncer.Run
import Lifecycle.Proofs.Hosting.Timer

/-!
# The tasks behind the slot

Every call makes a task of its own.  The task of the action in the slot is armed: it will have its
turn when the action is due.  All other tasks that have not started their actions are told that they
were discarded, and never will.
-/

namespace Lifecycle.Debouncer

variable {d : Debouncer} {job : Job} {now due : Nat}

theorem wait_eq {α : Type} {s : Slot α} (lastStart : d.lastStart = s.lastStart) (now : Nat)
    (delay : Span) : d.wait now delay = s.wait d.settings.leading now delay := by
  rw [wait, Slot.wait, ← lastStart]
  cases d.settings.leading with
  | false => rfl
  | true =>
      cases d.lastStart with
      | none => rfl
      | some start =>
          have hns (n : Nat) : (Span.ofMs n).ns = n * 1000000 := rfl
          rw [Option.all_some, Bool.true_and, if_pos rfl]
          by_cases hlater : (Span.ofMs start).ns + delay.ns ≤ (Span.ofMs now).ns
          · rw [if_pos (decide_eq_true hlater)]
            exact if_neg (by rw [hns] at hlater ⊢; rw [hns] at hlater; omega)
          · rw [if_neg (by rwa [decide_eq_true_eq])]
            by_cases hrecent : (Span.ofMs (now - start)).ns < delay.ns
            · exact if_pos hrecent
            · -- The clock stands before the last start, and there is no delay.
              have hnone : delay.ns = 0 := by
                rw [hns] at hlater hrecent
                rw [hns] at hlater
                omega
              cases delay
              cases hnone
              exact if_neg hrecent

theorem poll_of_discarded (h : job.number ∈ d.discarded) : d.poll now job = .dropped := by
  have hdiscarded : d.isDiscarded job = true := List.contains_iff_mem.mpr h
  simp [poll, tryStart, hdiscarded]

def Job.EndsAt (job : Job) (now due : Nat) : Prop :=
  job.deadline = none ∧ due = now + job.wait.ceilMs ∨
    job.deadline = some due ∧ 0 < job.wait.ceilMs ∧ now ≤ due

theorem Job.EndsAt.le (h : job.EndsAt now due) : now ≤ due := by
  rcases h with ⟨_, hdue⟩ | ⟨_, _, hle⟩
  · omega
  · exact hle

theorem poll_of_endsAt (h : job.EndsAt now due) (latest : d.generation = job.number)
    (kept : job.number ∉ d.discarded) :
    now = due ∧ d.poll now job = .start { d with pending := none, lastStart := some now } ∨
      now < due ∧ 0 < job.wait.ceilMs ∧ d.poll now job = .sleep due := by
  have hpolled := polled d now job
  generalize d.poll now job = result at hpolled ⊢
  cases hpolled with
  | dropped loose => exact absurd latest.symm (loose.resolve_left kept)
  | sleep deadline later course =>
      right
      rcases h with ⟨hnone, hdue⟩ | ⟨hsome, hwait, _⟩
      · rcases course with ⟨_, hdeadline⟩ | hset
        · exact ⟨by omega, by omega, by rw [hdeadline, hdue]⟩
        · rw [hnone] at hset
          cases hset
      · rcases course with ⟨hset, _⟩ | hset
        · rw [hsome] at hset
          cases hset
        · rw [hsome, Option.some.injEq] at hset
          rw [hset]
          exact ⟨later, hwait, rfl⟩
  | start ended =>
      refine .inl ⟨?_, rfl⟩
      rcases h with ⟨hnone, hdue⟩ | ⟨hsome, hwait, hle⟩
      · rcases ended with hzero | ⟨deadline, hset, _⟩
        · omega
        · rw [hnone] at hset
          cases hset
      · rcases ended with hzero | ⟨deadline, hset, hover⟩
        · omega
        · rw [hsome, Option.some.injEq] at hset
          omega

namespace Scenario

open HasExecutor

variable {given : DebounceSettings} {turn next : Option TaskId} {v w : World}
  {x y : Executor Signal Task} {log : List (Entry Action)} {id : TaskId} {job : Job}
  {h : Held Action}

/-- The task starts the action when it is due. -/
structure Armed (x : Executor Signal Task) (id : TaskId) (job : Job) (h : Held Action) : Prop where
  task : x.task? id = some (.held job h.action.1 h.action.2)
  number : job.number = h.number
  ends : job.EndsAt x.now h.due
  begins : job.deadline = none → id ∈ x.ready
  rings : id ∈ x.ready ∨ x.now < h.due ∧ ⟨h.due, id⟩ ∈ x.timers

theorem Armed.present (armed : Armed x id job h) : (x.task? id).isSome = true := by
  rw [armed.task]
  rfl

theorem Armed.spared (armed : Armed x id job h) (spared : Executor.Spared id x y)
    (now : y.now = x.now) : Armed y id job h where
  task := spared.task.trans armed.task
  number := armed.number
  ends := by
    rw [now]
    exact armed.ends
  begins fresh := spared.ready (armed.begins fresh)
  rings := by
    rw [now]
    rcases armed.rings with hready | ⟨hlater, htimer⟩
    · exact .inl (spared.ready hready)
    · exact (spared.timers _ htimer).elim (fun htimer => .inr ⟨hlater, htimer⟩) .inl

theorem Armed.moveClock {target : Nat} (armed : Armed x id job h) (idle : x.running ≠ some id)
    (ready : x.ready = []) (first : ∀ t ∈ x.timers, target ≤ t.deadline) :
    Armed (x.moveClock target) id job h := by
  have hready : id ∉ x.ready := by
    rw [ready]
    exact List.not_mem_nil
  obtain ⟨_, htimer⟩ := armed.rings.resolve_left hready
  have hrings : target < h.due ∧ ⟨h.due, id⟩ ∈ (x.moveClock target).timers ∨
      id ∈ (x.moveClock target).ready :=
    Executor.mem_timers_moveClock armed.present idle htimer
  have hends : job.EndsAt target h.due := by
    rcases armed.ends with ⟨hnone, _⟩ | ⟨hsome, hwait, _⟩
    · exact absurd (armed.begins hnone) hready
    · exact .inr ⟨hsome, hwait, first _ htimer⟩
  obtain ⟨more, hmore⟩ := x.moveClock_eq target
  rw [hmore] at hrings ⊢
  exact ⟨armed.task, armed.number, hends, fun fresh => absurd (armed.begins fresh) hready,
    hrings.symm⟩

/-- The tasks that have not started, but for some, know that they never will. -/
def World.Released (w : World) (others : List TaskId) : Prop :=
  ∀ id ∉ others, ∀ job name body, w.executor.task? id = some (.held job name body) →
    job.number ∈ w.debouncer.discarded

structure Kept (given : DebounceSettings) (turn : Option TaskId) (w : World)
    (log : List (Entry Action)) : Prop where
  legal : Slot.Legal given.leading log
  ordered : w.executor.Ordered turn
  doomed : w.executor.doomed = []
  settings : w.debouncer.settings = given
  calls : w.debouncer.generation = (Slot.replay given.leading log).calls
  pending : w.debouncer.pending = (Slot.replay given.leading log).held.map Held.number
  lastStart : w.debouncer.lastStart = (Slot.replay given.leading log).lastStart
  discarded : ∀ n ∈ w.debouncer.discarded,
    n ≤ w.debouncer.generation ∧ w.debouncer.pending ≠ some n
  armed : ∀ h, (Slot.replay given.leading log).held = some h →
    ∃ id job, turn ≠ some id ∧ Armed w.executor id job h ∧ w.Released (id :: turn.toList)
  free : (Slot.replay given.leading log).held = none → w.Released turn.toList
  starts : w.starts = (log.filterMap Entry.start?).map fun s => (s.1, s.2.1)
  past : ∀ s ∈ log.filterMap Entry.start?, s.1 ≤ w.executor.now

namespace Kept

variable {name : String} {body : List Item} {delay : Option Span}

theorem due_le (kept : Kept given turn w log)
    (held : (Slot.replay given.leading log).held = some h) : w.executor.now ≤ h.due := by
  obtain ⟨id, job, _, armed, _⟩ := kept.armed h held
  exact armed.ends.le

theorem latest (kept : Kept given turn w log)
    (held : (Slot.replay given.leading log).held = some h) :
    w.debouncer.generation = h.number := by
  rw [kept.calls, kept.legal.held_number held]

theorem pending_eq (kept : Kept given turn w log)
    (held : (Slot.replay given.leading log).held = some h) :
    w.debouncer.pending = some h.number := by
  rw [kept.pending, held]
  rfl

theorem number_le (kept : Kept given turn w log) {n : Nat}
    (pending : w.debouncer.pending = some n) :
    n ≤ w.debouncer.generation := by
  rw [kept.pending, Option.map_eq_some_iff] at pending
  obtain ⟨h, held, rfl⟩ := pending
  exact Nat.le_of_eq (kept.latest held).symm

theorem told (kept : Kept given turn w log) (other : turn ≠ some id)
    (task : w.executor.task? id = some (.held job name body)) :
    job.number ∈ w.debouncer.discarded ∨ w.debouncer.pending = some job.number := by
  have hturn : id ∉ turn.toList := by rwa [Option.mem_toList]
  cases hheld : (Slot.replay given.leading log).held with
  | none => exact .inl (kept.free hheld id hturn job name body task)
  | some h =>
      obtain ⟨holder, job', _, armed, released⟩ := kept.armed h hheld
      by_cases hid : id = holder
      · subst hid
        rw [armed.task] at task
        cases task
        exact .inr (by rw [kept.pending_eq hheld, armed.number])
      · exact .inl (released id (by simp [hid, hturn]) job name body task)

theorem frame (kept : Kept given turn w log) (ordered : v.executor.Ordered next)
    (now : w.executor.now ≤ v.executor.now) (doomed : v.executor.doomed = [])
    (debouncer : v.debouncer = w.debouncer) (starts : v.starts = w.starts)
    (others : ∀ id job name body, next ≠ some id →
      v.executor.task? id = some (.held job name body) → turn ≠ some id ∧
        ∃ job', job'.number = job.number ∧ w.executor.task? id = some (.held job' name body))
    (armed : ∀ id job h, (Slot.replay given.leading log).held = some h → turn ≠ some id →
      Armed w.executor id job h → next ≠ some id ∧ ∃ job', Armed v.executor id job' h) :
    Kept given next v log where
  legal := kept.legal
  ordered := ordered
  doomed := doomed
  settings := by rw [debouncer, kept.settings]
  calls := by rw [debouncer, kept.calls]
  pending := by rw [debouncer, kept.pending]
  lastStart := by rw [debouncer, kept.lastStart]
  discarded := by
    rw [debouncer]
    exact kept.discarded
  armed h held := by
    obtain ⟨id, job, other, harmed, released⟩ := kept.armed h held
    obtain ⟨hnext, job, harmed⟩ := armed id job h held other harmed
    refine ⟨id, job, hnext, harmed, fun k hk job name body task => ?_⟩
    rw [List.mem_cons, Option.mem_toList, not_or] at hk
    obtain ⟨hturn, job', hnumber, htask⟩ := others k job name body hk.2 task
    rw [debouncer, ← hnumber]
    exact released k (by simp [hk.1, hturn]) job' name body htask
  free held k hk job name body task := by
    rw [Option.mem_toList] at hk
    obtain ⟨hturn, job', hnumber, htask⟩ := others k job name body hk task
    rw [debouncer, ← hnumber]
    exact kept.free held k (by rwa [Option.mem_toList]) job' name body htask
  starts := by rw [starts, kept.starts]
  past s hs := Nat.le_trans (kept.past s hs) now

theorem noted (kept : Kept given turn w log) {n : Note} (silent : (w.note n).starts = w.starts) :
    Kept given turn (w.note n) log :=
  kept.frame kept.ordered (Nat.le_refl _) kept.doomed rfl silent
    (fun _ job _ _ other task => ⟨other, job, rfl, task⟩)
    fun _ job _ _ other armed => ⟨other, job, armed⟩

end Kept

/-! ## Calls and drops -/

section Calls

variable {name : String} {body : List Item} {delay : Option Span}

theorem discard_eq (w : World) :
    w.discard = { w with debouncer := w.debouncer.discard, executor := w.discard.executor } := by
  unfold World.discard
  cases w.debouncer.pending <;> rfl

theorem executor_discard (w : World) :
    w.discard.executor = w.executor ∨ ∃ s, w.discard.executor = w.executor.signal s := by
  unfold World.discard
  cases w.debouncer.pending with
  | none => exact .inl rfl
  | some n => exact .inr ⟨.discarded n, rfl⟩

theorem spares_discard (ordered : w.executor.Ordered turn) :
    Executor.Spares turn w.executor w.discard.executor := by
  rcases executor_discard w with heq | ⟨s, heq⟩
  · rw [heq]
    exact .refl ordered
  · rw [heq]
    exact Executor.spares_signal ordered s

theorem task?_discard (w : World) (id : TaskId) :
    w.discard.executor.task? id = w.executor.task? id := by
  rcases executor_discard w with heq | ⟨s, heq⟩
  · rw [heq]
  · rw [heq]
    exact (Executor.keeps_signal _ s).task id nofun

theorem starts_snoc (log : List (Entry Action)) {e : Entry Action} (h : e.start? = none) :
    (log ++ [e]).filterMap Entry.start? = log.filterMap Entry.start? := by
  simp [h]

def World.newJob (w : World) (delay : Option Span) : Job :=
  (w.debouncer.schedule w.executor.now (delay.getD w.debouncer.settings.delay)).2

theorem wait_newJob (w : World) (delay : Option Span) :
    (w.newJob delay).wait =
      w.debouncer.wait w.executor.now (delay.getD w.debouncer.settings.delay) := rfl

theorem schedule_eq (w : World) (name : String) (delay : Option Span) (body : List Item) :
    w.schedule name delay body =
      { w with
        debouncer :=
          (w.debouncer.schedule w.executor.now (delay.getD w.debouncer.settings.delay)).1
        executor := w.discard.executor.spawn (.held (w.newJob delay) name body) } := by
  rw [World.schedule, discard_eq]
  rfl

theorem spares_schedule (ordered : w.executor.Ordered turn) (name : String) (delay : Option Span)
    (body : List Item) :
    Executor.Spares turn w.executor (w.schedule name delay body).executor := by
  have hdiscard := spares_discard ordered
  rw [schedule_eq]
  exact hdiscard.trans (Executor.spares_spawn hdiscard.ordered _)

namespace Kept

theorem discarded_discard (kept : Kept given turn w log) {n : Nat}
    (discarded : n ∈ w.debouncer.discard.discarded) : n ≤ w.debouncer.generation := by
  rcases List.mem_append.mp discarded with hdiscarded | hpending
  · exact (kept.discarded n hdiscarded).1
  · exact kept.number_le (Option.mem_toList.mp hpending)

theorem released_discard (kept : Kept given turn w log) (other : turn ≠ some id)
    (task : w.executor.task? id = some (.held job name body)) :
    job.number ∈ w.debouncer.discard.discarded := by
  rcases kept.told other task with hdiscarded | hpending
  · exact List.mem_append_left _ hdiscarded
  · exact List.mem_append_right _ (Option.mem_toList.mpr hpending)

theorem schedule (kept : Kept given turn w log) (name : String) (delay : Option Span)
    (body : List Item) :
    Kept given turn (w.schedule name delay body)
      (log ++ [.scheduled (w.debouncer.generation + 1) (name, body) w.executor.now
        (delay.getD w.debouncer.settings.delay)]) := by
  have hspares := spares_discard kept.ordered
  have hordered := (spares_schedule kept.ordered name delay body).ordered
  have hdue : w.executor.now + ((Slot.replay given.leading log).wait given.leading w.executor.now
      (delay.getD w.debouncer.settings.delay)).ceilMs =
        w.discard.executor.now + (w.newJob delay).wait.ceilMs := by
    rw [hspares.now, wait_newJob, wait_eq kept.lastStart, kept.settings]
  rw [schedule_eq] at hordered ⊢
  constructor
  · exact kept.legal.snoc ⟨congrArg (· + 1) kept.calls, fun h => kept.due_le⟩
  · exact hordered
  · exact hspares.doomed.trans kept.doomed
  · exact kept.settings
  · rw [Slot.replay_append_singleton]
    exact congrArg (· + 1) kept.calls
  · rw [Slot.replay_append_singleton]
    rfl
  · rw [Slot.replay_append_singleton]
    exact kept.lastStart
  · -- The new number is beyond those that were given up.
    intro n hn
    have hle := kept.discarded_discard hn
    refine ⟨Nat.le_succ_of_le hle, fun heq => ?_⟩
    rw [← Option.some.inj heq] at hle
    exact Nat.lt_irrefl _ hle
  · intro h held
    rw [Slot.replay_append_singleton] at held
    cases held
    -- The task that is added now holds the slot, and all others were told to give up.
    refine ⟨w.discard.executor.nextTask, w.newJob delay, ?_, ?_, ?_⟩
    · rw [← hspares.ordered.turn]
      exact hspares.ordered.toNumbered.idle
    · have hready : w.discard.executor.nextTask ∈
          (w.discard.executor.spawn (.held (w.newJob delay) name body)).ready :=
        List.mem_append_right _ (List.mem_singleton_self _)
      exact ⟨Executor.task?_spawn hspares.ordered.toNumbered _, rfl, .inl ⟨rfl, hdue⟩,
        fun _ => hready, .inl hready⟩
    · intro other hother job name body task
      rw [List.mem_cons, Option.mem_toList, not_or] at hother
      have htask := (Executor.task?_spawn_ne _ hother.1).symm.trans task
      rw [task?_discard] at htask
      exact kept.released_discard hother.2 htask
  · intro held
    rw [Slot.replay_append_singleton] at held
    cases held
  · rw [starts_snoc log rfl]
    exact kept.starts
  · rw [starts_snoc log rfl]
    exact fun s hs => Nat.le_trans (kept.past s hs) (Nat.le_of_eq hspares.now.symm)

theorem drop (kept : Kept given turn w log) :
    Kept given turn { w.discard with alive := false } (log ++ [.dropped w.executor.now]) := by
  have hspares := spares_discard kept.ordered
  rw [discard_eq]
  constructor
  · exact kept.legal.snoc fun h => kept.due_le
  · exact hspares.ordered
  · exact hspares.doomed.trans kept.doomed
  · exact kept.settings
  · rw [Slot.replay_append_singleton]
    exact kept.calls
  · rw [Slot.replay_append_singleton]
    rfl
  · rw [Slot.replay_append_singleton]
    exact kept.lastStart
  · exact fun n hn => ⟨kept.discarded_discard hn, nofun⟩
  · intro h held
    rw [Slot.replay_append_singleton] at held
    cases held
  · intro _ other hother job name body task
    rw [Option.mem_toList] at hother
    exact kept.released_discard hother ((task?_discard w other).symm.trans task)
  · rw [starts_snoc log rfl]
    exact kept.starts
  · rw [starts_snoc log rfl]
    exact fun s hs => Nat.le_trans (kept.past s hs) (Nat.le_of_eq hspares.now.symm)

end Kept

end Calls

end Scenario

end Lifecycle.Debouncer
