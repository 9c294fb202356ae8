import Lifecycle.Proofs.Executor.Turns
import Lifecycle.Proofs.Script
import Lifecycle.Proofs.Subscribers.Accounting

/-!
# Workers at work

In each act a user takes a step, one of the tasks in the queue has its turn, or the clock moves.
Whatever they do, the set is given inputs, and the books of all runs are those of its queues.  The
worker of a subscriber is the task with its number.  It handles an event, or is in the queue of the
executor, or waits for its own queue, which is empty then.
-/

namespace Lifecycle.Subscribers

namespace Input

def worker? : Input → Option Nat
  | take k | handled k _ | finish k => some k
  | _ => none

def handles : Input → Bool
  | take _ | handled _ _ => true
  | _ => false

def releases : Input → Bool
  | release => true
  | _ => false

end Input

namespace State

variable {s : State} {given : Input} {k : Nat} {c : Channel} {effects : List Effect}
  {channels : List Channel}

theorem Deals.beside (h : Deals s given channels effects) (before : s.channels[k]? = some c)
    (other : given.worker? ≠ some k) :
    ∃ d, channels[k]? = some d ∧ d.work = c.work ∧
      (d.waiting = c.waiting ∨ .signal (.queue k) ∈ effects) := by
  cases h with
  | @offers _ e offered =>
      refine ⟨c.offer e, by rw [List.getElem?_map, before]; rfl, work_offer c e, ?_⟩
      cases hfull : c.isFull with
      | true => exact .inl (by rw [Channel.offer, hfull]; rfl)
      | false =>
          right
          refine List.mem_flatMap.mpr ⟨(c, k), List.mem_zipIdx_iff_getElem?.mpr before, ?_⟩
          simp [Channel.reply, hfull]
  | @takes j | @returns j | @ends j =>
      have hj : j ≠ k := fun heq => other (congrArg some heq)
      exact ⟨c, by simp [before, hj], rfl, .inl rfl⟩
  | lags | rests => exact ⟨c, before, rfl, .inl rfl⟩

theorem handed_step (other : ∀ k, given ≠ .take k) (k : Nat) : handed k (s.step given).2 = [] := by
  have hdeals := step_deals s given
  generalize (s.step given).1.channels = channels, (s.step given).2 = effects at hdeals
  cases hdeals with
  | offers => exact handed_replies _ _ _ _
  | @takes j => exact absurd rfl (other j)
  | returns panic => cases panic <;> rfl
  | ends | lags => rfl
  | rests _ quiet => exact handed_of_quiet quiet k

theorem held_step (other : given.releases = false) : (s.step given).1.held = s.held := by
  cases given with
  | release => cases other
  | emit => simp only [step]; split <;> rfl
  | listen | unlisten =>
      simp only [step, listen, unlisten]
      split <;> rfl
  | hear receipt r =>
      simp only [step, hear]
      repeat' split
      all_goals rfl
  | stop => rfl
  | take | handled | finish =>
      simp only [step, take, handled, finish]
      repeat' split
      all_goals rfl

end State

namespace Scenario

open HasExecutor

variable {turn : Option TaskId} {hands : Nat → Option (List Item)} {u v w : World}
  {x y z : Executor Signal Task} {id : TaskId}
  {k : Nat} {c : Channel} {t : Task} {given : Input} {effects more : List Effect}
  {incidents later : List Incident} {rest : Rest Signal Task}

instance : LawfulExecutor World where
  executor_withExecutor _ _ := rfl
  withExecutor_withExecutor _ _ _ := rfl

/-! ## Runs -/

inductive Act where
  | step (s : Step)
  | shutdown
  | turn (id : TaskId)
  | clock (target : Nat)

namespace World

def perform (w : World) : Act → World
  | .step s => (w.take s).1
  | .shutdown => if w.owned then HasExecutor.spawn { w with owned := false } .shutdown else w
  | .turn id => Hosted.runTurn w id
  | .clock target => update w (·.moveClock target)

def admits (w : World) : Act → Bool
  | .step (.advance _) | .step .settle | .step .shutdown => false
  | .step _ | .shutdown => true
  | .turn id => w.executor.ready.contains id
  | .clock target =>
      w.executor.ready.isEmpty && decide (w.executor.now ≤ target) &&
        w.executor.timers.all fun t => target ≤ t.deadline

def after (w : World) (acts : List Act) : World := acts.foldl perform w

def orderly (w : World) : List Act → Bool
  | [] => true
  | a :: rest => w.admits a && (w.perform a).orderly rest

theorem orderly_cons (w : World) (a : Act) (rest : List Act) :
    w.orderly (a :: rest) = true ↔ w.admits a = true ∧ (w.perform a).orderly rest = true := by
  simp [orderly]

def asked (w : World) : Act → List Incident
  | .step (.publish e times) => List.replicate times (.publish e)
  | .step (.emit e times) => if w.owned then List.replicate times (.input (.emit e)) else []
  | .step .listen => if w.owned then [.input (.listen w.bus.subscribe)] else []
  | _ => []

def askedAll (w : World) : List Act → List Incident
  | [] => []
  | a :: rest => w.asked a ++ (w.perform a).askedAll rest

def told (w : World) (k : Nat) : List Event := (w.notes.filter fun n => n.1 = k).map fun n => n.2.2

def inHand (w : World) (k : Nat) : Option (List Item) :=
  match w.executor.task? k with
  | some (.program (.worker _ hand)) => hand
  | _ => none

end World

/-! ## What effects do to the executor -/

def Tells (effects : List Effect) (a : Signal) : Prop := ∃ s, a = .set s ∧ .signal s ∈ effects

structure Delivers (turn : Option TaskId) (effects : List Effect) (x y : Executor Signal Task) :
    Prop extends Executor.Wakes turn (Tells effects) x y where
  fresh : ∀ id t, y.task? id = some t → x.task? id = some t ∨
    x.nextTask ≤ id ∧ t = .program .listener
  nextTask : x.nextTask ≤ y.nextTask

theorem Delivers.refl (ordered : x.Ordered turn) : Delivers turn [] x x :=
  have hspares : Executor.Spares turn x x := .refl ordered
  ⟨hspares.wakes (by simp [Tells]), fun _ _ => .inl, Nat.le_refl _⟩

theorem Delivers.trans (h₁ : Delivers turn effects x y) (h₂ : Delivers turn more y z) :
    Delivers turn (effects ++ more) x z where
  toWakes := h₁.toWakes.trans h₂.toWakes (by
    rintro _ ⟨s, rfl, told⟩
    exact (List.mem_append.mp told).imp (⟨s, rfl, ·⟩) (⟨s, rfl, ·⟩))
  fresh id t task := by
    rcases h₂.fresh id t task with hold | ⟨hnew, hlistener⟩
    · exact h₁.fresh id t hold
    · exact .inr ⟨Nat.le_trans h₁.nextTask hnew, hlistener⟩
  nextTask := Nat.le_trans h₁.nextTask h₂.nextTask

theorem delivers_signal (ordered : x.Ordered turn) {s : Signal}
    (only : ∀ a, Tells effects a → a = s) : Delivers turn effects x (x.signal s) := by
  obtain ⟨more, hmore⟩ := x.signal_eq s
  refine ⟨Executor.wakes_signal ordered only, fun id t task => .inl ?_, ?_⟩
  · exact (congrArg (·.task? id) hmore).symm.trans task
  · exact Nat.le_of_eq (congrArg Executor.nextTask hmore).symm

theorem delivers_perform (ordered : w.executor.Ordered turn) (e : Effect) :
    Delivers turn [e] w.executor (Hosting.perform w e).executor := by
  cases e with
  | publish e => exact delivers_signal (s := .set .published) ordered (by simp [Tells])
  | signal s =>
      refine delivers_signal ordered ?_
      rintro _ ⟨s', rfl, told⟩
      cases List.mem_singleton.mp told
      rfl
  | startListener =>
      refine ⟨(Executor.spares_spawn ordered _).wakes (by simp [Tells]), fun id t task => ?_,
        Nat.le_succ _⟩
      by_cases hid : id = w.executor.nextTask
      · have hnew := Executor.task?_spawn ordered.toNumbered (Task.program .listener)
        rw [← hid] at hnew
        exact .inr ⟨Nat.le_of_eq hid.symm, Option.some.inj (task.symm.trans hnew)⟩
      · exact .inl ((Executor.task?_spawn_ne _ hid).symm.trans task)
  | handle =>
      have hspares : Executor.Spares turn w.executor w.executor := .refl ordered
      exact ⟨hspares.wakes (by simp [Tells]), fun _ _ => .inl, Nat.le_refl _⟩

theorem delivers_performAll (ordered : w.executor.Ordered turn) (effects : List Effect) :
    Delivers turn effects w.executor (effects.foldl Hosting.perform w).executor := by
  induction effects generalizing w with
  | nil => exact .refl ordered
  | cons e rest ih =>
      have hfirst := delivers_perform ordered e
      exact hfirst.trans (ih hfirst.ordered)

theorem delivers_input (ordered : w.executor.Ordered turn) (given : Input) :
    Delivers turn (w.set.step given).2 w.executor (Hosting.input w given).executor :=
  delivers_performAll (w := { w with set := (w.set.step given).1 }) ordered _

/-! ## What an input leaves alone -/

theorem aside_foldl_perform (effects : List Effect) (w : World) :
    (effects.foldl Hosting.perform w).owned = w.owned ∧
      (effects.foldl Hosting.perform w).subscribers = w.subscribers ∧
      (effects.foldl Hosting.perform w).notes = w.notes := by
  induction effects generalizing w with
  | nil => exact ⟨rfl, rfl, rfl⟩
  | cons e rest ih =>
      obtain ⟨howned, hsubscribers, hnotes⟩ := ih (Hosting.perform w e)
      cases e <;> exact ⟨howned, hsubscribers, hnotes⟩

theorem owned_input (w : World) (given : Input) : (Hosting.input w given).owned = w.owned :=
  (aside_foldl_perform _ _).1

theorem subscribers_input (w : World) (given : Input) :
    (Hosting.input w given).subscribers = w.subscribers :=
  (aside_foldl_perform _ _).2.1

theorem notes_input (w : World) (given : Input) : (Hosting.input w given).notes = w.notes :=
  (aside_foldl_perform _ _).2.2

theorem set_input (w : World) (given : Input) :
    (Hosting.input w given).set = (w.set.step given).1 := by
  have hcircuit := congrArg Circuit.set (circuit_input w given)
  rw [Circuit.set_input] at hcircuit
  exact hcircuit

/-! ## The events in hand -/

def outcome : List Item → Option String
  | [] => none
  | .pause _ :: rest => outcome rest
  | .panic p :: _ => some p.info

def Subscriber.outcome (s : Subscriber) (e : Event) : Option String :=
  (s.panics.find? fun p => p.1.fires e).map fun p => p.2.info

theorem outcome_script (s : Subscriber) (e : Event) : outcome (s.script e) = s.outcome e := by
  rw [Subscriber.script, Subscriber.outcome]
  induction s.pauses with
  | nil => cases s.panics.find? fun p => p.1.fires e <;> rfl
  | cons p rest ih => exact ih

inductive Leaves (items : List Item) : HandlerTurn Signal (List Item) → Prop
  | waits {rest : List Item} {signals : List Signal} {deadline : Option Nat}
      (same : outcome rest = outcome items) : Leaves items (.waiting rest signals deadline)
  | ends : Leaves items (.ended (outcome items))

theorem runHandler_leaves (w : World) (items : List Item) :
    ∃ result, runHandler w items = (w, result) ∧ Leaves items result := by
  induction items with
  | nil => exact ⟨_, rfl, .ends⟩
  | cons item rest ih =>
      cases item with
      | panic p => exact ⟨_, rfl, .ends⟩
      | pause p =>
          cases hpoll : p.poll w.executor.now w.opened with
          | none =>
              obtain ⟨result, hresult, hleaves⟩ := ih
              refine ⟨result, ?_, ?_⟩
              · rw [← hresult]
                simp [runHandler, runScript, act, Pause.react, hpoll]
              · cases hleaves with
                | waits same => exact .waits same
                | ends => exact .ends
          | some wait =>
              obtain ⟨p', latches, deadline⟩ := wait
              exact ⟨.waiting (.pause p' :: rest) (latches.map .latch) deadline,
                by simp [runHandler, runScript, act, Pause.react, hpoll], .waits rfl⟩

/-- Where the worker of a subscriber is, and what it has in hand, when it does not have its turn. -/
inductive Stands (x : Executor Signal Task) (k : Nat) (c : Channel) : Option (List Item) → Prop
  | idle (work : c.work = .idle) (task : x.task? k = some (.program (.worker k none)))
      (awaits : k ∈ x.ready ∨ c.waiting = [] ∧ (.set (.queue k), k) ∈ x.waits) : Stands x k c none
  | handling {items : List Item} (work : c.work = .handling)
      (task : x.task? k = some (.program (.worker k (some items)))) : Stands x k c (some items)
  | ended (work : c.work = .ended) (task : x.task? k = none) : Stands x k c none

theorem present_of_task {p : Task} (task : x.task? id = some p) : (x.task? id).isSome = true := by
  rw [task]
  rfl

theorem Stands.spared {d : Channel} {hand : Option (List Item)} (h : Stands x k c hand)
    (work : d.work = c.work)
    (waiting : d.waiting = c.waiting ∨
      ((x.task? k).isSome = true → (.set (.queue k), k) ∈ x.waits → k ∈ y.ready))
    (spared : (x.task? k).isSome = true → Executor.Spared k x y)
    (absent : x.task? k = none → y.task? k = none) : Stands y k d hand := by
  cases h with
  | idle idle task awaits =>
      have hpresent := present_of_task task
      have hspared := spared hpresent
      refine .idle (work.trans idle) (hspared.task.trans task) ?_
      rcases awaits with hready | ⟨hempty, hwaits⟩
      · exact .inl (hspared.ready hready)
      · rcases waiting with hsame | hwoken
        · exact (hspared.waits _ hwaits).symm.imp_right fun waits => ⟨hsame.trans hempty, waits⟩
        · exact .inl (hwoken hpresent hwaits)
  | handling handling task =>
      have hspared := spared (present_of_task task)
      exact .handling (work.trans handling) (hspared.task.trans task)
  | ended ended task => exact .ended (work.trans ended) (absent task)

/-- The workers are the first tasks, each with its number, and nobody who owns the set has begun to
shut it down. -/
structure Manned (turn : Option TaskId) (hands : Nat → Option (List Item)) (w : World) : Prop where
  ordered : w.executor.Ordered turn
  doomed : w.executor.doomed = []
  length : w.set.channels.length ≤ w.executor.nextTask
  stands : ∀ (k : Nat) (c : Channel), w.set.channels[k]? = some c → turn ≠ some k →
    Stands w.executor k c (hands k)
  placed : ∀ (id k : Nat) (hand : Option (List Item)),
    w.executor.task? id = some (.program (.worker k hand)) → id = k ∧ k < w.set.channels.length
  owned : w.owned = true → w.set.held = true ∧ ∀ id, w.executor.task? id ≠ some .shutdown
  present : ∀ id, turn = some id → (w.executor.task? id).isSome = true

theorem Manned.lt_nextTask (h : Manned turn hands w) (channel : w.set.channels[k]? = some c) :
    k < w.executor.nextTask :=
  Nat.lt_of_lt_of_le (List.getElem?_eq_some_iff.mp channel).1 h.length

theorem Manned.absent (h : Manned turn hands w) (channel : w.set.channels[k]? = some c)
    (fresh : ∀ t, y.task? k = some t → w.executor.task? k = some t ∨ w.executor.nextTask ≤ k)
    (absent : w.executor.task? k = none) : y.task? k = none := by
  cases hnew : y.task? k with
  | none => rfl
  | some t =>
      rcases fresh t hnew with hold | hlong
      · rw [absent] at hold
        cases hold
      · exact absurd (h.lt_nextTask channel) (Nat.not_lt_of_le hlong)

theorem Manned.placed_of_delivers (h : Manned turn hands w)
    (delivers : Delivers turn effects w.executor y) {hand : Option (List Item)}
    (task : y.task? id = some (.program (.worker k hand))) :
    id = k ∧ k < w.set.channels.length := by
  rcases delivers.fresh id _ task with hold | ⟨_, hlistener⟩
  · exact h.placed id k hand hold
  · cases hlistener

theorem Manned.input (h : Manned turn hands w) (given : Input)
    (own : given.worker? = none ∨ given.worker? = turn)
    (free : given.releases = false ∨ w.owned = false) {holds : Nat → Option (List Item)}
    (same : ∀ k, turn ≠ some k → holds k = hands k) :
    Manned turn holds (Hosting.input w given) := by
  have hdelivers := delivers_input h.ordered given
  have hdeals := State.step_deals w.set given
  have hset : (Hosting.input w given).set = (w.set.step given).1 := set_input w given
  refine ⟨hdelivers.ordered, hdelivers.doomed.trans h.doomed, ?_, ?_, ?_, ?_, ?_⟩
  · rw [hset, hdeals.length]
    exact Nat.le_trans h.length hdelivers.nextTask
  · -- What the input does to a queue whose worker has no turn is to add to it, and then its signal
    -- is given.
    intro k d after other
    rw [hset] at after
    obtain ⟨c, before⟩ := hdeals.origin after
    have hother : given.worker? ≠ some k := by
      rcases own with hnone | hturn
      · simp [hnone]
      · rwa [hturn]
    obtain ⟨d', after', hwork, hwaiting⟩ := hdeals.beside before hother
    obtain rfl : d' = d := Option.some.inj (after'.symm.trans after)
    rw [same k other]
    refine (h.stands k c before other).spared hwork ?_ (hdelivers.spared k · other)
      (h.absent before fun t task => (hdelivers.fresh k t task).imp_right And.left)
    exact hwaiting.imp_right fun told present waits =>
      hdelivers.woken k _ present other ⟨_, rfl, told⟩ waits
  · intro id k hand task
    rw [hset, hdeals.length]
    exact h.placed_of_delivers hdelivers task
  · rw [owned_input]
    intro howned
    obtain ⟨hheld, hnone⟩ := h.owned howned
    refine ⟨?_, fun id task => ?_⟩
    · have hrest := free.resolve_right (by simp [howned])
      rw [hset, State.held_step hrest]
      exact hheld
    · rcases hdelivers.fresh id _ task with hold | ⟨_, hlistener⟩
      · exact hnone id hold
      · cases hlistener
  · intro id hturn
    rw [hdelivers.task id (h.present id hturn)]
    exact h.present id hturn

theorem Manned.same (h : Manned turn hands w) (executor : v.executor = w.executor)
    (set : v.set = w.set) (owned : v.owned = true → w.owned = true) : Manned turn hands v := by
  constructor
  all_goals rw [executor]
  · exact h.ordered
  · exact h.doomed
  · exact set ▸ h.length
  · exact set ▸ h.stands
  · exact set ▸ h.placed
  · exact fun hv => set ▸ h.owned (owned hv)
  · exact h.present

theorem Manned.aside (h : Manned none hands w) {v : World} (set : v.set = w.set)
    (ordered : v.executor.Ordered turn) (doomed : v.executor.doomed = [])
    (nextTask : w.executor.nextTask ≤ v.executor.nextTask)
    (spared : ∀ id, (w.executor.task? id).isSome = true → turn ≠ some id →
      Executor.Spared id w.executor v.executor)
    (fresh : ∀ id t, v.executor.task? id = some t → w.executor.task? id = some t ∨
      w.executor.nextTask ≤ id ∧ t = .shutdown ∧ v.owned = false)
    (owned : v.owned = true → w.owned = true)
    (present : ∀ id, turn = some id → (v.executor.task? id).isSome = true) :
    Manned turn hands v := by
  refine ⟨ordered, doomed, ?_, fun k c channel other => ?_, fun id k hand task => ?_,
    fun howned => ?_, present⟩
  · rw [set]
    exact Nat.le_trans h.length nextTask
  · rw [set] at channel
    exact (h.stands k c channel (by simp)).spared rfl (.inl rfl) (spared k · other)
      (h.absent channel fun t task => (fresh k t task).imp_right And.left)
  · rw [set]
    rcases fresh id _ task with hold | ⟨_, hshutdown, _⟩
    · exact h.placed id k hand hold
    · cases hshutdown
  · rw [set]
    obtain ⟨hheld, hnone⟩ := h.owned (owned howned)
    refine ⟨hheld, fun id task => ?_⟩
    rcases fresh id _ task with hold | ⟨_, _, hdisowned⟩
    · exact hnone id hold
    · rw [howned] at hdisowned
      cases hdisowned

theorem Manned.signal (h : Manned none hands w) (s : Signal)
    (executor : v.executor = w.executor.signal s) (set : v.set = w.set)
    (owned : v.owned = w.owned) :
    Manned none hands v := by
  have hspares := Executor.spares_signal h.ordered s
  obtain ⟨more, hmore⟩ := w.executor.signal_eq s
  refine h.aside set ?_ ?_ ?_ ?_ ?_ (fun hv => owned ▸ hv) (by simp)
  all_goals rw [executor]
  · exact hspares.ordered
  · exact hspares.doomed.trans h.doomed
  · exact Nat.le_of_eq (congrArg Executor.nextTask hmore).symm
  · exact hspares.spared
  · intro id t task
    rw [hmore] at task
    exact .inl task

theorem Manned.call (h : Manned none hands w) (queued : id ∈ w.executor.ready) :
    Manned (some id) hands (update w (·.call id)) :=
  have hkeeps := Executor.keeps_call h.ordered.turn (h.ordered.queued id queued)
  h.aside rfl (h.ordered.call queued) h.doomed (Nat.le_refl _)
    (fun _ present other => hkeeps.spared other present (h.ordered.idle (by simp)))
    (fun _ _ => .inl) (fun owned => owned) fun other hturn => by
      rw [← Option.some.inj hturn]
      exact h.ordered.queued id queued

inductive Parks (k : Nat) (c : Channel) : Option (List Item) → Rest Signal Task → Prop
  | ends (work : c.work = .ended) : Parks k c none .ended
  | awaits (work : c.work = .idle) (empty : c.waiting = []) :
      Parks k c none (.waiting (.program (.worker k none)) [.set (.queue k)] none)
  | yields (work : c.work = .idle) : Parks k c none (.yielding (.program (.worker k none)))
  | pauses {items : List Item} {signals : List Signal} {deadline : Option Nat}
      (work : c.work = .handling) :
      Parks k c (some items) (.waiting (.program (.worker k (some items))) signals deadline)

theorem Parks.program? {hand : Option (List Item)} (h : Parks k c hand rest) {p : Task}
    (program : rest.program? = some p) : p = .program (.worker k hand) := by
  cases h <;> cases program <;> rfl

theorem Parks.stands {hand : Option (List Item)} (h : Parks k c hand rest)
    (present : (x.task? k).isSome = true) : Stands (x.left k rest) k c hand := by
  have htask := Executor.task?_left present rest
  cases h with
  | ends work => exact .ended work htask
  | awaits work empty =>
      have hwaits : (Signal.set (.queue k), k) ∈
          (x.suspend k (.program (.worker k none)) [.set (.queue k)] none).waits :=
        Executor.mem_waits_suspend (List.mem_singleton_self _) _ _
      exact .idle work htask (.inr ⟨empty, hwaits⟩)
  | yields work => exact .idle work htask (.inl (Executor.mem_ready_requeue present _))
  | pauses work => exact .handling work htask

theorem executor_leave (w : World) (id : TaskId) (rest : Rest Signal Task) :
    (Hosted.leave w id rest).executor = w.executor.left id rest :=
  Hosted.executor_leave w id rest

theorem Manned.left (h : Manned (some id) hands w)
    (parks : ∀ c, w.set.channels[id]? = some c → Parks id c (hands id) rest)
    (fits : ∀ k hand, rest.program? = some (.program (.worker k hand)) →
      id = k ∧ k < w.set.channels.length)
    (begun : rest.program? = some .shutdown → w.owned = false) :
    Manned none hands (Hosted.leave w id rest) := by
  have hexecutor := executor_leave w id rest
  have hset : (Hosted.leave w id rest).set = w.set := by cases rest <;> rfl
  have howned : (Hosted.leave w id rest).owned = w.owned := by cases rest <;> rfl
  have hkeeps := Executor.keeps_left h.ordered.turn rest
  have hpresent := h.present id rfl
  have htask := Executor.task?_left hpresent rest
  constructor
  · rw [hexecutor]
    exact h.ordered.left rest
  · rw [hexecutor]
    refine List.eq_nil_iff_forall_not_mem.mpr fun other doomed => ?_
    have hdoomed := Executor.doomed_left _ rest id other doomed
    rw [h.doomed] at hdoomed
    cases hdoomed
  · rw [hset, hexecutor, Executor.nextTask_left]
    exact h.length
  · rw [hset, hexecutor]
    intro k c channel _
    by_cases hk : id = k
    · subst hk
      exact (parks c channel).stands hpresent
    · have hother : some id ≠ some k := fun heq => hk (Option.some.inj heq)
      refine (h.stands k c channel hother).spared rfl (.inl rfl) (fun hpresent' => ?_)
        fun absent => ?_
      · exact hkeeps.spared hother hpresent' (h.ordered.idle hother)
      · exact (hkeeps.task k hother).trans absent
  · rw [hset, hexecutor]
    intro other k hand task
    by_cases hid : id = other
    · subst hid
      exact fits k hand (htask.symm.trans task)
    · have hother : some id ≠ some other := fun heq => hid (Option.some.inj heq)
      exact h.placed other k hand ((hkeeps.task other hother).symm.trans task)
  · rw [hset, hexecutor, howned]
    intro hown
    obtain ⟨hheld, hnone⟩ := h.owned hown
    refine ⟨hheld, fun other task => ?_⟩
    by_cases hid : id = other
    · subst hid
      have hdisowned := begun (htask.symm.trans task)
      rw [hown] at hdisowned
      cases hdisowned
    · have hother : some id ≠ some other := fun heq => hid (Option.some.inj heq)
      exact hnone other ((hkeeps.task other hother).symm.trans task)
  · exact fun _ => nofun

end Scenario

end Lifecycle.Subscribers
