import Lifecycle.Proofs.Gate.Grace
import Lifecycle.Proofs.Hosting.Steady
import Lifecycle.Proofs.Hosting.Worlds

/-!
# The grace period lasts as long as the settings say

When the last consumer leaves an active gate, its session lingers until the grace period is over, to
the millisecond, unless a consumer comes or the session ends before.  A consumer who comes in time
finds the session as it was, and the timer that was running does nothing to it any more.
-/

namespace Lifecycle.Gate

namespace State

variable {γ κ : Type} {asks : List (Input γ κ)} {input : Input γ κ} {epoch i : Nat}

theorem Ordinary.calm (h : Ordinary asks input) (calm : ∀ a ∈ asks, a.disturbs i = false) :
    input.disturbs i = false := by
  rcases h with ⟨hmem, _⟩ | herrand
  · exact calm input hmem
  · cases input with
    | activate | activated | deactivate | deactivated | drop => rfl
    | _ => cases herrand

theorem Ordinary.ne_elapsed (h : Ordinary asks input) : input ≠ .drainElapsed epoch := by
  rintro rfl
  rcases h with ⟨_, hrequest⟩ | herrand
  · cases hrequest
  · cases herrand

variable [Inhabited κ] {s t : State γ κ}

theorem Path.grace_eq (path : Path s asks t) :
    t.grace = s.grace := by
  refine path.keep (P := fun u => u.grace = s.grace) (fun same move _ _ => ?_) rfl
  rw [move.grace_eq, same]

theorem Path.lingers (path : Path s asks t) (sound : Sound s)
    (lingers : Lingers s epoch i) (calm : ∀ a ∈ asks, a.disturbs i = false) :
    Lingers t epoch i := by
  refine (path.keep (P := fun u => Sound u ∧ Lingers u epoch i)
    (fun ⟨hsound, hlingers⟩ move admitted ordinary => ?_) ⟨sound, lingers⟩).2
  exact ⟨hsound.move move admitted,
    hlingers.move hsound move admitted (ordinary.calm calm) ordinary.ne_elapsed⟩

theorem Path.gone (path : Path s asks t) (sound : Sound s) (gone : Gone s i)
    (calm : ∀ a ∈ asks, a.disturbs i = false) : Gone t i := by
  refine (path.keep (P := fun u => Sound u ∧ Gone u i)
    (fun ⟨hsound, hgone⟩ move admitted ordinary => ?_) ⟨sound, gone⟩).2
  exact ⟨hsound.move move admitted, hgone.move hsound move admitted (ordinary.calm calm)⟩

end State

namespace Hosting

open HasExecutor
open State (Move)

/-! ## While the session lingers -/

section Lingering

variable {W σ τ γ κ η : Type} [Inhabited κ] [Hosting W σ τ γ κ η] {v w : W} {since : Nat}
  {asks : List (Input γ κ)} {epoch i : Nat} {grace : Span}

theorem Linked.sound {due : List (Effect γ κ)} {hand : Option Mark} (h : Linked w due hand) :
    (state w).Sound := ⟨h.paced, h.manned⟩

theorem Steady.in_time (h : Steady w since) (draining : (state w).phase = .draining)
    (patient : (state w).grace = some grace) :
    now w < since + grace.ceilMs ∨ now w = since + grace.ceilMs ∧
      ∃ id job, job? w id = some (.grace job (some (state w).drainEpoch)) ∧
        id ∈ (executor w).ready ∧ Timed w since job := by
  obtain ⟨hlive, htimed, _⟩ := h.window draining
  rcases hlive with ⟨id, job, hcrew⟩ | ⟨_, _, hdue⟩
  · obtain ⟨_, hjob⟩ := htimed id job hcrew
    cases patient.symm.trans hjob.wait
    rcases h.tended id _ hcrew with hready | ⟨deadline, hdeadline, hearly, _⟩
    · have hlate : now w ≤ since + job.wait.ceilMs := by
        rcases hjob.course with ⟨_, hnow⟩ | ⟨_, _, hhigh⟩ <;> omega
      rcases Nat.lt_or_eq_of_le hlate with hlt | heq
      · exact .inl hlt
      · exact .inr ⟨heq, id, job, hcrew.1, hready, hjob⟩
    · rcases hjob.course with ⟨hnone, _⟩ | ⟨hsome, _⟩
      · rw [hdeadline] at hnone
        cases hnone
      · rw [hdeadline, Option.some.injEq] at hsome
        exact .inl (hsome ▸ hearly)
  · cases hdue

theorem Proceeds.grace_eq (h : Proceeds w since asks v) : (state v).grace = (state w).grace := by
  cases h with
  | path path => exact path.grace_eq
  | elapses _ _ step => exact (State.move_of_step step).grace_eq

theorem Proceeds.lingers (h : Proceeds w since asks v) (sound : (state w).Sound)
    (lingers : (state w).Lingers epoch i) (patient : (state w).grace = some grace)
    (calm : ∀ a ∈ asks, a.disturbs i = false) :
    (state v).Lingers epoch i ∨ state v = (state w).tearDown.1 ∧ (state v).Gone i ∧
      now w = since + grace.ceilMs ∧ now v = now w := by
  cases h with
  | path path => exact .inl (path.lingers sound lingers calm)
  | elapses accepts k step _ now ended =>
      have move := State.move_of_step step
      by_cases hk : k = epoch
      · subst hk
        obtain ⟨hdown, hgone⟩ := lingers.elapsed sound move
        obtain ⟨grace', hgrace, hover⟩ := ended lingers.phase lingers.epoch
        cases patient.symm.trans hgrace
        exact .inr ⟨hdown, hgone, hover, now⟩
      · left
        apply lingers.move sound move rfl rfl
        intro same
        exact hk (Input.drainElapsed.inj same)

theorem Proceeds.gone (h : Proceeds w since asks v) (sound : (state w).Sound)
    (gone : (state w).Gone i) (calm : ∀ a ∈ asks, a.disturbs i = false) : (state v).Gone i := by
  cases h with
  | path path => exact path.gone sound gone calm
  | elapses _ k step => exact gone.move sound (State.move_of_step step) rfl rfl

end Lingering

/-! ## The whole grace period -/

section Run

variable {W σ τ γ κ η : Type} [DecidableEq σ] [Inhabited κ] [Hooked W σ τ γ κ η]
  [LawfulHosting W] {v w : W} {since : Nat} {asks more : List (Input γ κ)} {epoch i : Nat}
  {grace : Span}

theorem Steady.grace_run (h : Steady w since) (run : Run w asks v) :
    (state v).grace = (state w).grace := by
  induction run with
  | done => rfl
  | next run happens ih =>
      obtain ⟨mid, hmid, _⟩ := h.run run
      obtain ⟨_, _, _, hproceeds⟩ := hmid.happens happens
      exact hproceeds.grace_eq.trans ih

theorem state_turn_elapsed {job : Debouncer.Job} {timer' : Debouncer} (epoch : Nat)
    (start : (timer w).poll (now w) job = .start timer') :
    ∃ accepts effects, Move accepts (state w) (.drainElapsed epoch)
      (state (Hooked.turn w (.grace job (some epoch))).1) effects := by
  obtain ⟨accepts, hmove⟩ := step_move (withTimer w timer') (.drainElapsed epoch)
  rw [← state_input, LawfulHosting.state_withTimer] at hmove
  refine ⟨accepts, (step (withTimer w timer') (.drainElapsed epoch)).2, ?_⟩
  simp only [Hooked.turn, start]
  exact hmove

/-- The session lingers until the deadline.  At that time a task is in the queue that ends it with
its next turn. -/
inductive Outlasts (w : W) (epoch i deadline : Nat) : Prop
  | lingers (session : (state w).Lingers epoch i) (early : now w < deadline)
  | due (session : (state w).Lingers epoch i) (now : now w = deadline) (id : TaskId)
      (job : Debouncer.Job) (task : job? w id = some (.grace job (some epoch)))
      (ready : id ∈ (executor w).ready)
      (ends : ∀ queue, state (Hooked.turn (begin w id queue) (.grace job (some epoch))).1 =
        (state w).tearDown.1)
  | gone (session : (state w).Gone i) (late : deadline ≤ now w)

theorem Steady.lasts (h : Steady w since) (lingers : (state w).Lingers epoch i)
    (patient : (state w).grace = some grace) : Outlasts w epoch i (since + grace.ceilMs) := by
  rcases h.in_time lingers.phase patient with hearly | ⟨hnow, id, job, htask, hready, htimed⟩
  · exact .lingers lingers hearly
  · rw [lingers.epoch] at htask
    refine .due lingers hnow id job htask hready fun queue => ?_
    have hstate : state (begin w id queue) = state w := state_update w _
    have hclock : now (begin w id queue) = now w := by rw [begin, now, executor_update]; rfl
    have htimer : timer (begin w id queue) = timer w := timer_update w _
    cases patient.symm.trans htimed.wait
    have hturn : Timed (begin w id queue) since job :=
      htimed.congr (by rw [hstate]) hclock (by rw [htimer]) (by rw [htimer])
    obtain ⟨timer', hstart⟩ := hturn.starts (hclock.trans hnow)
    obtain ⟨accepts, effects, hmove⟩ := state_turn_elapsed epoch hstart
    rw [hstate] at hmove
    exact (lingers.elapsed h.sound hmove).1

theorem Steady.outlasts (h : Steady w since) (lingers : (state w).Lingers epoch i)
    (patient : (state w).grace = some grace) (run : Run w asks v)
    (calm : ∀ a ∈ asks, a.disturbs i = false) :
    Outlasts v epoch i (since + grace.ceilMs) := by
  -- While the session lingers the epoch is the same, hence also the beginning of the period that
  -- `Steady` speaks of.
  induction run with
  | done => exact h.lasts lingers patient
  | @next v u asks more run happens ih =>
      have hbefore := ih fun a ha => calm a (List.mem_append_left _ ha)
      have hcalm (a : Input γ κ) (ha : a ∈ more) := calm a (List.mem_append_right _ ha)
      obtain ⟨mid, hmid, hlater⟩ := h.run run
      obtain ⟨begun, hsteady, hnext, hproceeds⟩ := hmid.happens happens
      have hpatient := (h.grace_run run).trans patient
      have hstep (session : (state v).Lingers epoch i) :
          Outlasts u epoch i (since + grace.ceilMs) := by
        have hsame := hlater.same (session.epoch.trans lingers.epoch.symm)
        rcases hproceeds.lingers hmid.sound session hpatient hcalm with
          hstill | ⟨_, hgone, hover, hnow⟩
        · have hbegun := hnext.same (hstill.epoch.trans session.epoch.symm)
          rw [← hsame, ← hbegun]
          exact hsteady.lasts hstill (hproceeds.grace_eq.trans hpatient)
        · apply Outlasts.gone hgone
          omega
      cases hbefore with
      | lingers session => exact hstep session
      | due session => exact hstep session
      | gone session late =>
          exact .gone (hproceeds.gone hmid.sound session hcalm) (Nat.le_trans late hnext.now)

theorem state_turn_of_lt {job : Debouncer.Job} (past : epoch < (state w).drainEpoch) :
    state (Hooked.turn w (.grace job (some epoch))).1 = state w := by
  cases hpoll : (timer w).poll (now w) job with
  | dropped => simp only [Hooked.turn, hpoll]
  | sleep deadline => simp only [Hooked.turn, hpoll]
  | start timer' =>
      obtain ⟨accepts, effects, hmove⟩ := state_turn_elapsed epoch hpoll
      generalize state (Hooked.turn w (.grace job (some epoch))).1 = t at hmove ⊢
      cases hmove with
      | refuse => rfl
      | elapse _ _ same => omega

/-- The consumer finds the session as it was: no hook is called, the cache is shown, and the timer
that was running is without effect from now on. -/
structure Resumes (w : W) (c : γ) (i : Nat) : Prop where
  state : Hosting.state (input w (.attach c)) =
    { Hosting.state w with
      roster := (Hosting.state w).roster.insert c
      phase := .active
      drainEpoch := (Hosting.state w).drainEpoch + 1 }
  current : (Hosting.state (input w (.attach c))).isCurrent i = true
  effects : ∃ events : List Event, (step w (.attach c)).2 =
    [.replay (Hosting.state w).cache c, .endDrain] ++ events.map .publish
  harmless : ∀ asks v, Run (input w (.attach c)) asks v → ∀ id queue job,
    Hosting.state (Hooked.turn (begin v id queue)
      (.grace job (some (Hosting.state w).drainEpoch))).1 = Hosting.state v

theorem Steady.resumes (h : Steady w since) (lingers : (state w).Lingers epoch i) (c : γ) :
    Resumes w c i := by
  obtain ⟨accepts, hstate, heffects⟩ := LawfulHosting.step w (.attach c)
  have hphase := lingers.phase
  have hcurrent := lingers.current
  have hjoined : state (input w (.attach c)) =
      { state w with
        roster := (state w).roster.insert c
        phase := .active
        drainEpoch := (state w).drainEpoch + 1 } := by
    rw [state_input, hstate]
    simp [State.step, State.attach, hphase]
  refine ⟨hjoined, ?_, ?_, fun asks v run id queue job => ?_⟩
  · rw [hjoined]
    simpa [State.isCurrent, hphase, Phase.isLive] using hcurrent
  · rw [heffects]
    simp only [State.step, State.attach, hphase]
    exact ⟨[_, _], rfl⟩
  · -- Joining has begun a new epoch, and no later step goes back to the old one.
    obtain ⟨n, hpaced⟩ := h.paced
    have hadmitted : (state w).admits (.attach c) = true := by
      rw [State.admits, hpaced.not_dropped (by rw [hphase]; rfl)]
      rfl
    obtain ⟨mid, hmid, _⟩ := h.happens (.conduct (.ask rfl hadmitted (.done _)))
    obtain ⟨_, _, hlater⟩ := hmid.run run
    have hepoch := hlater.epoch
    rw [hjoined] at hepoch
    have hbegin : state (begin v id queue) = state v := state_update v _
    rw [← hbegin] at hepoch ⊢
    exact state_turn_of_lt hepoch

theorem Steady.departs {id : ConsumerId} {c : γ} (h : Steady w since)
    (patient : (state w).grace = some grace) (active : (state w).phase = .active)
    (current : (state w).isCurrent i = true) (attached : (state w).roster.find? id = some c)
    (last : ((state w).roster.erase id).isEmpty = true) :
    Steady (input w (.release id)) (now w) ∧
      (state (input w (.release id))).Lingers ((state w).drainEpoch + 1) i := by
  obtain ⟨accepts, hstate, _⟩ := LawfulHosting.step w (.release id)
  have hleft : state (input w (.release id)) =
      { state w with
        roster := (state w).roster.erase id
        phase := .draining
        drainEpoch := (state w).drainEpoch + 1 } := by
    rw [state_input, hstate]
    simp [State.step, State.release, attached, last, active, patient]
  have hrelease : Happens w [.release id] (input w (.release id)) :=
    .conduct (.ask rfl rfl (.done _))
  obtain ⟨begun, hsteady, hlater, _⟩ := h.happens hrelease
  obtain ⟨hlow, hhigh⟩ := hlater.other (by rw [hleft]; exact Nat.succ_ne_self _)
  rw [now_input] at hhigh
  cases Nat.le_antisymm hlow hhigh
  refine ⟨hsteady, ?_⟩
  rw [hleft]
  refine ⟨rfl, rfl, ?_⟩
  simpa [State.isCurrent, active, Phase.isLive] using current

/-- What happens after the last consumer has left, until another comes or the session ends. -/
structure GracePeriod (w : W) (epoch i deadline : Nat) : Prop where
  lasts : ∀ asks v, Run w asks v → (∀ a ∈ asks, a.disturbs i = false) →
    Outlasts v epoch i deadline
  ends : ∀ asks v more u, Run w asks v → (∀ a ∈ asks, a.disturbs i = false) →
    Happens v more u → (∀ a ∈ more, a.disturbs i = false) →
    (state v).phase = .draining → (state u).phase ≠ .draining →
      now v = deadline ∧ now u = deadline ∧ state u = (state v).tearDown.1
  resumes : ∀ asks v, Run w asks v → (∀ a ∈ asks, a.disturbs i = false) →
    (state v).phase = .draining → ∀ c, Resumes v c i

/-- Whenever the last consumer leaves an active gate, the full grace period begins. -/
theorem grace_period_is_full {settings : RelaySettings} {start w : W} {past : List (Input γ κ)}
    {grace : Span} {id : ConsumerId} {c : γ} (patient : settings.gracePeriod = some grace)
    (fresh : Fresh settings start) (run : Run start past w) (active : (state w).phase = .active)
    (current : (state w).isCurrent i = true) (attached : (state w).roster.find? id = some c)
    (last : ((state w).roster.erase id).isEmpty = true) :
    GracePeriod (input w (.release id)) ((state w).drainEpoch + 1) i
      (now w + grace.ceilMs) := by
  have hstart := fresh.steady
  have hgrace : (state w).grace = some grace := by
    rw [hstart.grace_run run, fresh.state]
    exact patient
  obtain ⟨since, hsteady, _⟩ := hstart.run run
  obtain ⟨hleft, hlingers⟩ := hsteady.departs hgrace active current attached last
  have hpatient : (state (input w (.release id))).grace = some grace := by
    obtain ⟨accepts, hmove⟩ := step_move w (.release id)
    rw [state_input, hmove.grace_eq, hgrace]
  have houtlasts {asks : List (Input γ κ)} {v : W} (run : Run (input w (.release id)) asks v)
      (calm : ∀ a ∈ asks, a.disturbs i = false) :=
    hleft.outlasts hlingers hpatient run calm
  have hlasting {asks : List (Input γ κ)} {v : W} (run : Run (input w (.release id)) asks v)
      (calm : ∀ a ∈ asks, a.disturbs i = false) (draining : (state v).phase = .draining) :
      (state v).Lingers ((state w).drainEpoch + 1) i := by
    cases houtlasts run calm with
    | lingers session => exact session
    | due session => exact session
    | gone session =>
        rw [session.phase] at draining
        cases draining
  refine ⟨fun asks v run calm => houtlasts run calm, ?_, ?_⟩
  · intro asks v more u run calm happens calm' draining ended
    have hlast := hlasting run calm draining
    obtain ⟨begun, hmid, hlater⟩ := hleft.run run
    obtain ⟨_, _, _, hproceeds⟩ := hmid.happens happens
    have hbegun := hlater.same (hlast.epoch.trans hlingers.epoch.symm)
    rcases hproceeds.lingers hmid.sound hlast ((hleft.grace_run run).trans hpatient) calm' with
      hstill | ⟨hdown, _, hnow, hsame⟩
    · exact absurd hstill.phase ended
    · rw [hbegun] at hnow
      exact ⟨hnow, hsame.trans hnow, hdown⟩
  · intro asks v run calm draining c
    obtain ⟨begun, hmid, _⟩ := hleft.run run
    exact hmid.resumes (hlasting run calm draining) c

end Run

def returned : Plain.World := input Plain.Visit.left (.attach ())

theorem returned_consumer_begins_full_period :
    ({ name := "plain", grace := .ofMs 500 } : RelaySettings).gracePeriod = some (.ofMs 500) ∧
      Run Plain.Visit.start [.attach (), .release 1, .attach ()] returned ∧
      (state returned).phase = .active ∧ (state returned).isCurrent 0 = true ∧
      (state returned).roster.find? 2 = some () ∧
      ((state returned).roster.erase 2).isEmpty = true ∧
      GracePeriod (input returned (.release 2)) ((state returned).drainEpoch + 1) 0
        (now returned + (Span.ofMs 500).ceilMs) := by
  have hreturn : Happens Plain.Visit.left [.attach ()] returned :=
    .conduct (.ask rfl rfl (.done _))
  have hrun : Run Plain.Visit.start [.attach (), .release 1, .attach ()] returned :=
    Plain.Visit.run_left.next hreturn
  exact ⟨rfl, hrun, rfl, rfl, rfl, rfl,
    grace_period_is_full rfl (Plain.fresh_plain _ _) hrun rfl rfl rfl rfl⟩

end Hosting

end Lifecycle.Gate
