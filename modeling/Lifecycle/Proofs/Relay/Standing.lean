import Lifecycle.Proofs.Relay.Streaming

/-!
# How a session stands to its stream

A session has not opened its stream yet, or one pump goes on with what is left of it, or the session
is over.  What leaves the session and its pump alone does not change this, except that it may end
the session.
-/

namespace Lifecycle.Relay.Scenario

open HasExecutor
open Executor (Spared)

/-! ## Pumps that wait -/

inductive Dozes (w : World) (id : TaskId) : Pause → Prop
  | sleeps (deadline : Nat) (later : w.executor.now < deadline)
      (armed : ⟨deadline, id⟩ ∈ w.executor.timers) : Dozes w id (.until deadline)
  | holds (latch : String) (closed : w.opened.contains latch = false)
      (waits : (.latch latch, id) ∈ w.executor.waits) : Dozes w id (.hold latch)
  | hangs : Dozes w id .hang

/-- The pump will have its turn, or it stands at a pause that is not over. -/
def Poised (w : World) (id : TaskId) (s : Stream) : Prop :=
  id ∈ w.executor.ready ∨ ∃ p rest, s.items = .pause p :: rest ∧ Dozes w id p

section Poised

variable {v w : World} {id : TaskId} {s : Stream} {p q : Pause}

theorem Dozes.pending (h : Dozes w id p) : (p.poll w.executor.now w.opened).isSome = true := by
  cases h with
  | sleeps deadline later =>
      rw [Pause.poll, if_neg (Nat.not_le_of_lt later)]
      rfl
  | holds latch closed =>
      rw [Pause.poll, closed]
      rfl
  | hangs => rfl

theorem Dozes.spared (h : Dozes w id p) (spared : Spared id w.executor v.executor)
    (now : v.executor.now = w.executor.now) (opened : v.opened = w.opened) :
    id ∈ v.executor.ready ∨ Dozes v id p := by
  cases h with
  | sleeps deadline later armed =>
      rcases spared.timers deadline armed with harmed | hready
      · exact .inr (.sleeps deadline (by rwa [now]) harmed)
      · exact .inl hready
  | holds latch closed waits =>
      rcases spared.waits _ waits with hwaits | hready
      · exact .inr (.holds latch (by rwa [opened]) hwaits)
      · exact .inl hready
  | hangs => exact .inr .hangs

theorem Poised.spared (h : Poised w id s) (spared : Spared id w.executor v.executor)
    (now : v.executor.now = w.executor.now) (opened : v.opened = w.opened) : Poised v id s := by
  rcases h with ready | ⟨p, rest, hitems, dozes⟩
  · exact .inl (spared.ready ready)
  · exact (dozes.spared spared now opened).imp_right fun hdozes => ⟨p, rest, hitems, hdozes⟩

theorem Poised.moveClock (h : Poised w id s) (present : (w.executor.task? id).isSome = true)
    (idle : w.executor.running ≠ some id) (target : Nat) :
    Poised (update w (·.moveClock target)) id s := by
  have hspared := Executor.spared_moveClock present idle target
  rcases h with ready | ⟨p, rest, hitems, dozes⟩
  · exact .inl (hspared.ready ready)
  cases dozes with
  | sleeps deadline later armed =>
      rcases Executor.mem_timers_moveClock present idle armed with ⟨hlater, harmed⟩ | hready
      · obtain ⟨more, hmore⟩ := w.executor.moveClock_eq target
        have hnow : (update w (·.moveClock target)).executor.now = target :=
          congrArg Executor.now hmore
        exact .inr ⟨_, rest, hitems, .sleeps deadline (by rwa [hnow]) harmed⟩
      · exact .inl hready
  | holds latch closed waits =>
      rcases hspared.waits _ waits with hwaits | hready
      · exact .inr ⟨_, rest, hitems, .holds latch closed hwaits⟩
      · exact .inl hready
  | hangs => exact .inr ⟨_, rest, hitems, .hangs⟩

theorem Poised.release (h : Poised w id s) (present : (w.executor.task? id).isSome = true)
    (idle : w.executor.running ≠ some id) (latch : String) :
    Poised (HasExecutor.signal { w with opened := latch :: w.opened } (.latch latch)) id s := by
  have hspared : Spared id w.executor (w.executor.signal (.latch latch)) :=
    (w.executor.keeps_signal _).spared nofun present idle
  rcases h with ready | ⟨p, rest, hitems, dozes⟩
  · exact .inl (hspared.ready ready)
  cases dozes with
  | sleeps deadline later armed =>
      rcases hspared.timers deadline armed with harmed | hready
      · have hnow := (w.executor.keeps_signal (.latch latch)).now
        exact .inr ⟨_, rest, hitems, .sleeps deadline (by rw [← hnow] at later; exact later) harmed⟩
      · exact .inl hready
  | holds other closed waits =>
      by_cases hother : other = latch
      · subst hother
        exact .inl (Executor.mem_ready_signal present idle waits)
      · rcases hspared.waits _ waits with hwaits | hready
        · refine .inr ⟨_, rest, hitems, .holds other ?_ hwaits⟩
          have hopened : (latch :: w.opened).contains other = false := by
            rw [List.contains_cons, closed, beq_eq_false_iff_ne.mpr hother]
            rfl
          exact hopened
        · exact .inl hready
  | hangs => exact .inr ⟨_, rest, hitems, .hangs⟩

theorem Dozes.suspend {latches : List String} {deadline : Option Nat} {signals : List Signal}
    (pending : p.poll w.executor.now w.opened = some (q, latches, deadline))
    (signalled : ∀ latch ∈ latches, .latch latch ∈ signals) (program : Task) :
    Dozes (Hosted.leave w id (.waiting program signals deadline)) id q := by
  cases p with
  | sleep ms =>
      by_cases hms : ms = 0
      · simp [Pause.poll, hms] at pending
      · simp only [Pause.poll, if_neg hms, Option.some.injEq, Prod.mk.injEq] at pending
        obtain ⟨rfl, rfl, rfl⟩ := pending
        exact .sleeps _ (Nat.lt_add_of_pos_right (Nat.pos_of_ne_zero hms))
          (Executor.mem_timers_suspend program signals _)
  | «until» d =>
      by_cases hd : d ≤ w.executor.now
      · simp [Pause.poll, hd] at pending
      · simp only [Pause.poll, if_neg hd, Option.some.injEq, Prod.mk.injEq] at pending
        obtain ⟨rfl, rfl, rfl⟩ := pending
        exact .sleeps d (Nat.lt_of_not_le hd) (Executor.mem_timers_suspend program signals d)
  | hold latch =>
      cases hopened : w.opened.contains latch with
      | true => simp [Pause.poll, List.contains_iff_mem.mp hopened] at pending
      | false =>
          simp only [Pause.poll, hopened, Bool.false_eq_true, if_false, Option.some.injEq,
            Prod.mk.injEq] at pending
          obtain ⟨rfl, rfl, rfl⟩ := pending
          exact .holds latch hopened
            (Executor.mem_waits_suspend (signalled latch List.mem_cons_self) program none)
  | hang =>
      simp only [Pause.poll, Option.some.injEq, Prod.mk.injEq] at pending
      obtain ⟨rfl, rfl, rfl⟩ := pending
      exact .hangs

end Poised

/-! ## What leaves the other sessions alone -/

/-- The relay has acted in this way, and all sessions but `skip` and their pumps are left alone. -/
structure Undisturbed (skip : Option Nat) (w : World) (acts : List Relay.Act) (v : World) :
    Prop where
  relay : v.relay = w.relay.after acts
  orderly : w.relay.orderly acts = true
  civil : w.relay.civil acts = true
  apart : ∀ i, skip ≠ some i → ∀ a ∈ acts, a.concerns i = false
  starts : ∀ i, skip ≠ some i → (i < v.starts ↔ i < w.starts)
  pumps : ∀ i, skip ≠ some i → ∀ id s,
    v.executor.task? id = some (.pump i s) ↔ w.executor.task? id = some (.pump i s)
  poised : ∀ i, skip ≠ some i → ∀ id s, w.executor.task? id = some (.pump i s) →
    Poised w id s → Poised v id s

def Idle (skip : Option Nat) (w : World) : Prop :=
  ∀ i, skip ≠ some i → ∀ id s, w.executor.task? id = some (.pump i s) →
    w.executor.running ≠ some id

section Undisturbed

variable {skip : Option Nat} {turn : Option TaskId} {id : TaskId} {u v w : World}
  {acts more : List Relay.Act} {p : Task}

theorem idle_of_none (ordered : w.executor.Ordered none) : Idle skip w := by
  intro i _ id s _
  rw [ordered.turn]
  exact nofun

theorem Undisturbed.idle (h : Undisturbed skip w acts v)
    (running : v.executor.running = w.executor.running) (idle : Idle skip w) : Idle skip v := by
  intro i other id s task
  rw [running]
  exact idle i other id s ((h.pumps i other id s).mp task)

theorem leave_eq (w : World) (id : TaskId) (rest : Rest Signal Task) :
    Hosted.leave w id rest = { w with executor := w.executor.left id rest } := by
  cases rest <;> rfl

namespace Undisturbed

theorem trans (h₁ : Undisturbed skip w acts v) (h₂ : Undisturbed skip v more u) :
    Undisturbed skip w (acts ++ more) u where
  relay := by rw [h₂.relay, h₁.relay, State.after_append]
  orderly := by
    rw [State.orderly_append, ← h₁.relay]
    exact ⟨h₁.orderly, h₂.orderly⟩
  civil := by
    rw [State.civil_append, ← h₁.relay]
    exact ⟨h₁.civil, h₂.civil⟩
  apart i other a ha := (List.mem_append.mp ha).elim (h₁.apart i other a) (h₂.apart i other a)
  starts i other := (h₂.starts i other).trans (h₁.starts i other)
  pumps i other id s := (h₂.pumps i other id s).trans (h₁.pumps i other id s)
  poised i other id s task poised :=
    h₂.poised i other id s ((h₁.pumps i other id s).mpr task) (h₁.poised i other id s task poised)

theorem of_spared (relay : v.relay = w.relay.after acts) (orderly : w.relay.orderly acts = true)
    (civil : w.relay.civil acts = true)
    (apart : ∀ i, skip ≠ some i → ∀ a ∈ acts, a.concerns i = false)
    (starts : ∀ i, skip ≠ some i → (i < v.starts ↔ i < w.starts))
    (now : v.executor.now = w.executor.now) (opened : v.opened = w.opened)
    (old : ∀ i, skip ≠ some i → ∀ id s, v.executor.task? id = some (.pump i s) →
      w.executor.task? id = some (.pump i s))
    (spared : ∀ i, skip ≠ some i → ∀ id s, w.executor.task? id = some (.pump i s) →
      Spared id w.executor v.executor) : Undisturbed skip w acts v where
  relay := relay
  orderly := orderly
  civil := civil
  apart := apart
  starts := starts
  pumps i other id s :=
    ⟨old i other id s, fun task => (spared i other id s task).task.trans task⟩
  poised i other id s task poised := poised.spared (spared i other id s task) now opened

theorem of_traces (ordered : w.executor.Ordered turn) (idle : Idle skip w)
    (h : Traces turn w acts v)
    (apart : ∀ i, skip ≠ some i → ∀ a ∈ acts, a.concerns i = false) :
    Undisturbed skip w acts v := by
  refine of_spared h.relay h.orderly h.civil apart (fun i _ => by rw [h.starts]) h.spares.now
    h.opened (fun i _ id s task => (h.task_iff rfl).mp task) fun i other id s task => ?_
  refine h.spares.spared id (by rw [task]; rfl) ?_
  rw [← ordered.turn]
  exact idle i other id s task

theorem of_same (idle : Idle skip w) (executor : v.executor = w.executor)
    (relay : v.relay = w.relay) (starts : ∀ i, skip ≠ some i → (i < v.starts ↔ i < w.starts))
    (opened : v.opened = w.opened) : Undisturbed skip w [] v := by
  refine of_spared relay rfl rfl (fun _ _ _ => nofun) starts (by rw [executor]) opened
    (fun i _ id s task => by rwa [executor] at task) fun i other id s task => ?_
  rw [executor]
  exact .refl (idle i other id s task)

theorem spawn (ordered : w.executor.Ordered turn) (idle : Idle skip w)
    (own : ∀ i s, p = .pump i s → skip = some i) :
    Undisturbed skip w [] (HasExecutor.spawn w p) := by
  have hspares := Executor.spares_spawn ordered p
  refine of_spared rfl rfl rfl (fun _ _ _ => nofun) (fun _ _ => Iff.rfl) rfl rfl
    (fun i other id s task => ?_) fun i other id s task => ?_
  · rcases Executor.task?_of_spawn ordered.toNumbered task with ⟨_, hp⟩ | hold
    · exact absurd (own i s hp.symm) other
    · exact hold
  · refine hspares.spared id (by rw [task]; rfl) ?_
    rw [← ordered.turn]
    exact idle i other id s task

theorem call (ordered : w.executor.Ordered none) (task : w.executor.task? id = some p)
    (own : ∀ i s, p = .pump i s → skip = some i) :
    Undisturbed skip w [] (update w (·.call id)) ∧ Idle skip (update w (·.call id)) := by
  have hkeeps := Executor.keeps_call ordered.turn (by rw [task]; rfl : _ = true)
  have hne {i : Nat} {k : TaskId} {s : Stream} (other : skip ≠ some i)
      (hk : w.executor.task? k = some (.pump i s)) : some id ≠ some k := by
    intro heq
    cases heq
    exact other (own i s (Option.some.inj (task.symm.trans hk)))
  refine ⟨of_spared rfl rfl rfl (fun _ _ _ => nofun) (fun _ _ => Iff.rfl) rfl rfl
    (fun _ _ _ _ task => task) fun i other k s hk => ?_, fun i other k s hk => hne other hk⟩
  exact hkeeps.spared (hne other hk) (by rw [hk]; rfl) (idle_of_none ordered i other k s hk)

theorem leave {rest : Rest Signal Task} (ordered : w.executor.Ordered (some id))
    (task : w.executor.task? id = some p) (own : ∀ i s, p = .pump i s → skip = some i)
    (later : ∀ i s, rest.program? = some (.pump i s) → skip = some i) :
    Undisturbed skip w [] (Hosted.leave w id rest) := by
  have hkeeps := Executor.keeps_left ordered.turn rest
  rw [leave_eq]
  refine of_spared rfl rfl rfl (fun _ _ _ => nofun) (fun _ _ => Iff.rfl) hkeeps.now rfl
    (fun i other k s hk => ?_) fun i other k s hk => ?_
  · by_cases hid : k = id
    · subst hid
      exact absurd (later i s (Executor.program?_of_left hk)) other
    · exact (hkeeps.task k fun heq => hid (Option.some.inj heq).symm).symm.trans hk
  · have hne : some id ≠ some k := by
      rintro ⟨⟩
      exact other (own i s (Option.some.inj (task.symm.trans hk)))
    refine hkeeps.spared hne (by rw [hk]; rfl) ?_
    rwa [ordered.turn]

theorem moveClock (ordered : w.executor.Ordered none) (target : Nat) :
    Undisturbed skip w [] (update w (·.moveClock target)) where
  relay := rfl
  orderly := rfl
  civil := rfl
  apart _ _ := nofun
  starts _ _ := Iff.rfl
  pumps i _ id s := by
    obtain ⟨more, hmore⟩ := w.executor.moveClock_eq target
    have htask : (w.executor.moveClock target).task? id = w.executor.task? id := by
      rw [hmore]
      rfl
    rw [← htask]
    rfl
  poised i other id s task poised :=
    poised.moveClock (by rw [task]; rfl) (idle_of_none ordered i other id s task) target

theorem release (ordered : w.executor.Ordered none) (latch : String) :
    Undisturbed skip w []
      (HasExecutor.signal { w with opened := latch :: w.opened } (.latch latch)) where
  relay := rfl
  orderly := rfl
  civil := rfl
  apart _ _ := nofun
  starts _ _ := Iff.rfl
  pumps i _ id s := by
    rw [← (w.executor.keeps_signal (.latch latch)).task id nofun]
    rfl
  poised i other id s task poised :=
    poised.release (by rw [task]; rfl) (idle_of_none ordered i other id s task) latch

end Undisturbed

end Undisturbed

/-! ## Sessions -/

structure Unopened (i : Nat) (w : World) (past : List Moment) : Prop where
  early : w.starts ≤ i
  unknown : w.gate.isKnown i = false
  unmanned : ∀ id s, w.executor.task? id ≠ some (.pump i s)
  silent : output i past = []
  quiet : ended i past = false

/-- The session has emitted the values `vs`, and its one pump goes on with `s`. -/
structure Flows (opens : Nat → Stream) (i : Nat) (w : World) (past : List Moment)
    (vs : List Value) (id : TaskId) (s : Stream) : Prop where
  called : i < w.starts
  known : w.gate.isKnown i = true
  current : w.gate.isCurrent i = true
  task : w.executor.task? id = some (.pump i s)
  only : ∀ k t, w.executor.task? k = some (.pump i t) → k = id
  goesOn : (opens i).GoesOn (vs.map .value) s
  calm : s.Calm
  poised : Poised w id s
  told : output i past = vs.map .value
  quiet : ended i past = false

structure Over (opens : Nat → Stream) (i : Nat) (w : World) (past : List Moment)
    (deeds : List Deed) : Prop where
  called : i < w.starts
  known : w.gate.isKnown i = true
  finished : w.gate.isCurrent i = false
  relayed : Relayed i (opens i) deeds
  told : output i past = deeds.filterMap Deed.gives?
  ends : ended i past = deeds.any Deed.isLast
  unmanned : deeds.any Deed.isLast = true → ∀ id s, w.executor.task? id ≠ some (.pump i s)

/-- How a session stands to its stream. -/
inductive Stands (opens : Nat → Stream) (i : Nat) (w : World) (past : List Moment) :
    List Deed → Prop
  | unopened (h : Unopened i w past) : Stands opens i w past []
  | flows (vs : List Value) (id : TaskId) (s : Stream) (h : Flows opens i w past vs id s) :
      Stands opens i w past (relaying i vs)
  | finished (deeds : List Deed) (h : Over opens i w past deeds) : Stands opens i w past deeds

section Stands

variable {opens : Nat → Stream} {skip : Option Nat} {i : Nat} {w v : World} {past : List Moment}
  {acts : List Relay.Act} {deeds : List Deed}

theorem Stands.called_iff (h : Stands opens i w past deeds) :
    i < w.starts ↔ w.gate.isKnown i = true := by
  cases h with
  | unopened h =>
      rw [h.unknown]
      exact ⟨fun called => absurd h.early (Nat.not_le_of_lt called), nofun⟩
  | flows vs id s h => exact ⟨fun _ => h.known, fun _ => h.called⟩
  | finished _ h => exact ⟨fun _ => h.known, fun _ => h.called⟩

theorem Stands.given (h : Stands opens i w past deeds) :
    output i past = deeds.filterMap Deed.gives? := by
  cases h with
  | unopened h => exact h.silent
  | flows vs id s h => rw [h.told, gives_relaying]
  | finished _ h => exact h.told

theorem Stands.ends (h : Stands opens i w past deeds) :
    ended i past = deeds.any Deed.isLast := by
  cases h with
  | unopened h => exact h.quiet
  | flows vs id s h => rw [h.quiet, any_isLast_relaying]
  | finished _ h => exact h.ends

theorem Stands.known_of_pump (h : Stands opens i w past deeds) {id : TaskId} {s : Stream}
    (task : w.executor.task? id = some (.pump i s)) : w.gate.isKnown i = true := by
  cases h with
  | unopened h => exact absurd task (h.unmanned id s)
  | flows vs id s h => exact h.known
  | finished _ h => exact h.known

theorem Stands.of_unknown (h : Stands opens i w past deeds) (unknown : w.gate.isKnown i = false) :
    deeds = [] ∧ Unopened i w past := by
  cases h with
  | unopened h => exact ⟨rfl, h⟩
  | flows vs id s h =>
      rw [h.known] at unknown
      cases unknown
  | finished _ h =>
      rw [h.known] at unknown
      cases unknown

theorem Stands.undisturbed (h : Stands opens i w past deeds) (attended : Attended w.relay past)
    (other : skip ≠ some i) (undisturbed : Undisturbed skip w acts v) :
    Stands opens i v (past ++ w.relay.history acts) deeds := by
  have happart := undisturbed.apart i other
  have houtput : output i (past ++ w.relay.history acts) = output i past := by
    rw [output_append, output_of_apart happart, List.append_nil]
  have hended : ended i (past ++ w.relay.history acts) = ended i past := by
    rw [ended_append, ended_of_apart happart, Bool.or_false]
  have hknown : v.gate.isKnown i = w.gate.isKnown i := by
    rw [World.gate, World.gate, undisturbed.relay, isKnown_of_apart happart]
  have hstarts := undisturbed.starts i other
  have hpumps := undisturbed.pumps i other
  cases h with
  | unopened h =>
      refine .unopened ⟨Nat.le_of_not_lt fun hlt => ?_, hknown.trans h.unknown,
        fun id s task => ?_, houtput.trans h.silent, hended.trans h.quiet⟩
      · exact Nat.not_le_of_lt (hstarts.mp hlt) h.early
      · exact h.unmanned id s ((hpumps id s).mp task)
  | flows vs id s h =>
      cases hcurrent : v.gate.isCurrent i with
      | true =>
          exact .flows vs id s ⟨hstarts.mpr h.called, hknown.trans h.known, hcurrent,
            (hpumps id s).mpr h.task, fun k t hk => h.only k t ((hpumps k t).mp hk), h.goesOn,
            h.calm, undisturbed.poised i other id s h.task h.poised, houtput.trans h.told,
            hended.trans h.quiet⟩
      | false =>
          refine .finished _ ⟨hstarts.mpr h.called, hknown.trans h.known, hcurrent,
            h.goesOn.underway, ?_, ?_, fun last => ?_⟩
          · rw [houtput, h.told, gives_relaying]
          · rw [hended, h.quiet, any_isLast_relaying]
          · rw [any_isLast_relaying] at last
            cases last
  | finished _ h =>
      refine .finished deeds ⟨hstarts.mpr h.called, hknown.trans h.known, ?_, h.relayed,
        houtput.trans h.told, hended.trans h.ends,
        fun last id s task => h.unmanned last id s ((hpumps id s).mp task)⟩
      rw [World.gate, undisturbed.relay]
      exact attended.over_after undisturbed.orderly (Gate.State.isKnown_lt h.known) h.finished

end Stands

end Lifecycle.Relay.Scenario
