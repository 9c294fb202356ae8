import Lifecycle.Proofs.Relay.Acting

/-!
# The turns of a relay that pumps streams

In the turn of a pump its session goes on with the stream; in all other turns, and in what users do,
the sessions have no part.
-/

namespace Lifecycle.Gate.State

variable {γ κ : Type} [Inhabited κ] {s t : State γ κ} {n i : Nat} {accepts : γ → Bool}
  {effects : List (Effect γ κ)}

theorem Move.activate_cases (move : Move accepts s (.activate i) t effects) (h : Paced s n) :
    t = s ∧ effects = [] ∨
      s.ActivationDue i ∧ t = s.setActivation i .running ∧ effects = [.callActivate i] := by
  cases move with
  | refuse => exact .inl ⟨rfl, rfl⟩
  | call _ due => exact .inr ⟨due, rfl, rfl⟩
  | skip _ due cancelled =>
      rw [h.uncancelled_of_due due] at cancelled
      cases cancelled

end Lifecycle.Gate.State

namespace Lifecycle.Relay.Scenario

open HasExecutor
open Gate.Hosting (Frame Conduct Behaves Steady job? hookRun?)

section Turns

variable {opens : Nat → Stream} {skip : Option Nat} {turn : Option TaskId} {id : TaskId}
  {hand next : List Consumer} {v w : World} {past : List Moment} {acts : List Relay.Act}
  {p : Task} {rest : Rest Signal Task}

namespace Upheld

theorem call (h : Upheld opens none [] w past) (skip : Option Nat)
    (queued : id ∈ w.executor.ready)
    (task : w.executor.task? id = some p) (own : ∀ i s, p = .pump i s → skip = some i) :
    Upheld opens (some id) [] (update w (·.call id)) past ∧
      Undisturbed skip w [] (update w (·.call id)) ∧ Idle skip (update w (·.call id)) := by
  refine ⟨?_, Undisturbed.call h.ordered task own⟩
  exact { attended := h.attended, ordered := h.ordered.call queued, spared := h.spared,
          feed := h.feed, emitters := h.emitters, plain := h.plain, handles := h.handles,
          leased := h.leased.same rfl rfl fun _ _ => Iff.rfl }

theorem leave (h : Upheld opens (some id) hand w past) (task : w.executor.task? id = some p)
    (plain : ∀ q, rest.program? = some q → q.isPlain = true)
    (own : ∀ i s, p = .pump i s → skip = some i)
    (later : ∀ i s, rest.program? = some (.pump i s) → skip = some i)
    (leased : Leased next (Hosted.leave w id rest)) :
    Passes opens skip none next w past [] (Hosted.leave w id rest) := by
  have hleave := Undisturbed.leave h.ordered task own later
  rw [leave_eq] at leased hleave ⊢
  refine ⟨{ attended := ?_, ordered := h.ordered.left rest, spared := ?_, feed := h.feed,
            emitters := h.emitters, plain := fun k q hq => ?_, handles := h.handles,
            leased := leased }, hleave⟩
  · rw [State.history, List.append_nil]
    exact h.attended
  · refine List.eq_nil_iff_forall_not_mem.mpr fun k doomed => ?_
    have hold := Executor.doomed_left w.executor rest id k doomed
    rw [h.spared] at hold
    cases hold
  · by_cases hk : k = id
    · subst hk
      exact plain q (Executor.program?_of_left hq)
    · have hkeeps := Executor.keeps_left h.ordered.turn rest
      exact h.plain k q ((hkeeps.task k fun heq => hk (Option.some.inj heq).symm).symm.trans hq)

theorem reap_cases (h : Upheld opens none [] w past) {since : Nat} (steady : Steady w since) :
    Gate.Hosting.reap w = w ∨ Gate.Hosting.reap w = Gate.Hosting.discardJob
      (Gate.Hosting.input w .drop) ∧ Gate.Hosting.isHeld w = false ∧ w.gate.isHeld = false := by
  rw [Gate.Hosting.reap]
  split
  · exact .inl rfl
  · rename_i hfree
    simp only [Bool.or_eq_true, not_or, Bool.not_eq_true, List.any_eq_false] at hfree
    obtain ⟨⟨_, hleft⟩, hidle⟩ := hfree
    have hunheld : w.gate.isHeld = false :=
      steady.unheld (h.leased.isEmpty hleft) fun id t hjob =>
        hidle t (Gate.Hosting.mem_tasks_of_job hjob)
    exact .inr ⟨rfl, hleft, hunheld⟩

theorem reap_of_current (h : Upheld opens none [] w past) (steady : ∃ since, Steady w since)
    {i : Nat} (current : w.gate.isCurrent i = true) : Gate.Hosting.reap w = w := by
  obtain ⟨since, hsteady⟩ := steady
  rcases h.reap_cases hsteady with hsame | ⟨_, _, hunheld⟩
  · exact hsame
  · obtain ⟨n, hpaced⟩ := hsteady.paced
    have hinactive : w.gate.phase = .inactive :=
      hpaced.inactive_of_not_held hsteady.manned.active hunheld
    have hlive := ((hpaced.isCurrent_iff i).mp current).1
    rw [show (Gate.Hosting.state w).phase = .inactive from hinactive] at hlive
    cases hlive

theorem reap (h : Upheld opens none [] w past) {since : Nat} (steady : Steady w since) :
    ∃ acts, Passes opens none none [] w past acts (Gate.Hosting.reap w) := by
  rcases h.reap_cases steady with hsame | ⟨hreaped, hleft, hunheld⟩
  · rw [hsame]
    exact ⟨_, (h.refl h.idle).toPasses⟩
  · rw [hreaped]
    have hadmitted : (!w.gate.isHeld) = true := by rw [hunheld]; rfl
    have hdrop : Traces none w [.gate .drop] (Gate.Hosting.input w .drop) :=
      .input h.ordered hadmitted rfl
    have hdiscard := Traces.of_beside (Beside.discardJob hdrop.ordered)
      (relay_discardJob (Gate.Hosting.input w .drop))
    have htraces := hdrop.trans hdiscard
    refine ⟨_, (h.moved htraces (fun _ => ?_) h.idle (by simp [Relay.Act.concerns])
      (h.leased.traces htraces (by simp))).toPasses⟩
    have hfree : (w.owned || w.clones != 0 || !w.consumers.isEmpty ||
      w.executor.tasks.any fun t => World.reads t.2) = false := hleft
    simp only [Bool.or_eq_false_iff] at hfree
    rw [World.hasHandle, hfree.1.1.1, hfree.1.1.2]
    rfl

end Upheld

end Turns

/-! ## What the run of a relay keeps -/

theorem Undisturbed.weaken {skip : Option Nat} {w v : World} {acts : List Relay.Act}
    (h : Undisturbed none w acts v) : Undisturbed skip w acts v where
  relay := h.relay
  orderly := h.orderly
  civil := h.civil
  apart i _ := h.apart i nofun
  starts i _ := h.starts i nofun
  pumps i _ := h.pumps i nofun
  poised i _ := h.poised i nofun

/-- Between two acts of a run all is upheld and provided for. -/
structure Floats (opens : Nat → Stream) (settings : RelaySettings) (w : World)
    (acts : List Relay.Act) : Prop where
  relay : w.relay = (State.fresh settings).after acts
  orderly : (State.fresh settings).orderly acts = true
  civil : (State.fresh settings).civil acts = true
  upheld : Upheld opens none [] w ((State.fresh settings).history acts)
  steady : ∃ since, Steady w since

structure Afloat (opens : Nat → Stream) (settings : RelaySettings) (w : World)
    (acts : List Relay.Act) (log : Log) : Prop extends Floats opens settings w acts where
  stands : ∀ i, Stands opens i w ((State.fresh settings).history acts) (deedsOf i log)

section Afloat

variable {opens : Nat → Stream} {settings : RelaySettings} {skip : Option Nat} {id : TaskId}
  {u v w : World} {acts more : List Relay.Act} {log entries : Log} {past : List Moment}
  {p : Task} {rest : Rest Signal Task}

theorem Floats.extend (h : Floats opens settings w acts)
    (passes : Passes opens skip none [] w ((State.fresh settings).history acts) more v)
    (steady : ∃ since, Steady v since) : Floats opens settings v (acts ++ more) where
  relay := by rw [passes.undisturbed.relay, h.relay, State.after_append]
  orderly := by
    rw [State.orderly_append, ← h.relay]
    exact ⟨h.orderly, passes.undisturbed.orderly⟩
  civil := by
    rw [State.civil_append, ← h.relay]
    exact ⟨h.civil, passes.undisturbed.civil⟩
  upheld := by
    rw [State.history_append, ← h.relay]
    exact passes.upheld
  steady := steady

theorem Afloat.extend (h : Afloat opens settings w acts log) (entries : Log)
    (passes : Passes opens skip none [] w ((State.fresh settings).history acts) more v)
    (steady : ∃ since, Steady v since) (others : ∀ i, skip ≠ some i → deedsOf i entries = [])
    (own : ∀ i, skip = some i →
      Stands opens i v ((State.fresh settings).history acts ++ w.relay.history more)
        (deedsOf i log ++ deedsOf i entries)) :
    Afloat opens settings v (acts ++ more) (log ++ entries) where
  toFloats := h.toFloats.extend passes steady
  stands i := by
    rw [State.history_append, ← h.relay, deedsOf_append]
    by_cases hi : skip = some i
    · exact own i hi
    · rw [others i hi, List.append_nil]
      exact (h.stands i).undisturbed h.upheld.attended hi passes.undisturbed

theorem Afloat.passes (h : Afloat opens settings w acts log)
    (passes : Passes opens none none [] w ((State.fresh settings).history acts) more v)
    (steady : ∃ since, Steady v since) : Afloat opens settings v (acts ++ more) log := by
  have hnext := h.extend [] passes steady (fun _ _ => rfl) nofun
  rwa [List.append_nil] at hnext

theorem steady_conduct (steady : ∃ since, Steady w since) (conduct : ∃ asks, Conduct w asks v) :
    ∃ since, Steady v since := by
  obtain ⟨since, hsteady⟩ := steady
  obtain ⟨asks, hconduct⟩ := conduct
  obtain ⟨begun, hnext, _⟩ := hsteady.happens (.conduct hconduct)
  exact ⟨begun, hnext⟩

theorem Passes.reaps (h : Passes opens skip none [] w past acts v)
    (steady : ∃ since, Steady v since) :
    ∃ more, Passes opens none none [] v (past ++ w.relay.history acts) more
        (Gate.Hosting.reap v) ∧
      Passes opens skip none [] w past (acts ++ more) (Gate.Hosting.reap v) ∧
      ∃ since, Steady (Gate.Hosting.reap v) since := by
  obtain ⟨since, hsteady⟩ := steady
  obtain ⟨more, hreap⟩ := h.upheld.reap hsteady
  obtain ⟨begun, hnext, _⟩ := hsteady.reap h.upheld.leased.isEmpty
  exact ⟨more, hreap, h.trans ⟨hreap.upheld, hreap.undisturbed.weaken⟩, begun, hnext⟩

theorem Afloat.passed (h : Afloat opens settings w acts log)
    (passes : Passes opens none none [] w ((State.fresh settings).history acts) more v)
    (steady : ∃ since, Steady v since) :
    ∃ last, Afloat opens settings (Gate.Hosting.reap v) (acts ++ (more ++ last)) log := by
  obtain ⟨last, _, hpasses, hsteady⟩ := passes.reaps steady
  exact ⟨last, h.passes hpasses hsteady⟩

theorem Afloat.leads (h : Afloat opens settings w acts log)
    (leads : Leads opens none none [] w ((State.fresh settings).history acts) more v) :
    ∃ last, Afloat opens settings (Gate.Hosting.reap v) (acts ++ (more ++ last)) log :=
  h.passed leads.toPasses (steady_conduct h.steady leads.conduct)

theorem Floats.moveClock (h : Floats opens settings w acts) {target : Nat}
    (idle : w.executor.ready = []) (later : w.executor.now ≤ target)
    (first : ∀ t ∈ w.executor.timers, target ≤ t.deadline) :
    Passes opens none none [] w ((State.fresh settings).history acts) []
        (update w (·.moveClock target)) ∧
      ∃ since, Steady (update w (·.moveClock target)) since := by
  obtain ⟨ring, hring⟩ := w.executor.moveClock_eq target
  have htask (id : TaskId) : (w.executor.moveClock target).task? id = w.executor.task? id := by
    rw [hring]
    rfl
  have hupheld : Upheld opens none [] (update w (·.moveClock target))
      ((State.fresh settings).history acts ++ w.relay.history []) := by
    refine { attended := ?_, ordered := h.upheld.ordered.moveClock target, spared := ?_,
             feed := h.upheld.feed, emitters := h.upheld.emitters, plain := fun id p task => ?_,
             handles := h.upheld.handles, leased := h.upheld.leased.same rfl rfl fun id r => ?_ }
    · rw [State.history, List.append_nil]
      exact h.upheld.attended
    · have hdoomed : (w.executor.moveClock target).doomed = w.executor.doomed := by rw [hring]
      exact hdoomed.trans h.upheld.spared
    · exact h.upheld.plain id p ((htask id).symm.trans task)
    · rw [← htask id]
      rfl
  obtain ⟨since, hsteady⟩ := h.steady
  obtain ⟨begun, hnext, _⟩ := hsteady.clock idle later first
  exact ⟨⟨hupheld, .moveClock h.upheld.ordered target⟩, begun, hnext⟩

theorem Afloat.clock (h : Afloat opens settings w acts log) {target : Nat}
    (idle : w.executor.ready = []) (later : w.executor.now ≤ target)
    (first : ∀ t ∈ w.executor.timers, target ≤ t.deadline) :
    Afloat opens settings (update w (·.moveClock target)) acts log := by
  obtain ⟨hpasses, hsteady⟩ := h.moveClock idle later first
  have hclock := h.passes hpasses hsteady
  rwa [List.append_nil] at hclock

theorem job?_eq (w : World) (id : TaskId) :
    job? w id = (w.executor.task? id).bind World.ofTask? := rfl

theorem conduct_turn (h : Upheld opens none [] w past) (task : w.executor.task? id = some p)
    (other : World.ofTask? p = none) (ordered : v.executor.Ordered (some id))
    (still : v.executor.task? id = some p) (conduct : ∃ asks, Conduct (update w (·.call id)) asks v)
    (later : ∀ q, rest.program? = some q → World.ofTask? q = none) :
    ∃ asks, Conduct w asks (Hosted.leave v id rest) := by
  have hjob {u : World} (task : u.executor.task? id = some p) : job? u id = none := by
    rw [job?_eq, task]
    exact other
  have hpresent : (w.executor.task? id).isSome = true := by rw [task]; rfl
  have hcall : Frame none w (update w (·.call id)) :=
    Frame.others (Gate.Hosting.frame_update (Executor.keeps_call h.ordered.turn hpresent))
      (hjob task) (hjob task)
  have hleave : Frame none v (Hosted.leave v id rest) := by
    rw [leave_eq]
    refine Frame.others (Gate.Hosting.frame_of_keeps
      (Executor.keeps_left ordered.turn rest) rfl rfl) (hjob still) ?_
    have hleft : (v.executor.left id rest).task? id = rest.program? :=
      Executor.task?_left (by rw [still]; rfl) rest
    rw [job?_eq, hleft]
    cases hprogram : rest.program? with
    | none => rfl
    | some q => exact later q hprogram
  obtain ⟨asks, hconduct⟩ := conduct
  exact ⟨_, .aside hcall (conduct_trans hconduct (.of_frame hleave))⟩

theorem Upheld.turned (h : Upheld opens none [] w past) (queued : id ∈ w.executor.ready)
    (task : w.executor.task? id = some p) (other : World.ofTask? p = none)
    (own : ∀ i s, p = .pump i s → skip = some i)
    (leads : Leads opens skip (some id) [] (update w (·.call id)) past more v)
    (plain : ∀ q, rest.program? = some q → q.isPlain = true ∧ World.ofTask? q = none)
    (later : ∀ i s, rest.program? = some (.pump i s) → skip = some i)
    (leased : Leased [] (Hosted.leave v id rest)) :
    Passes opens skip none [] w past more (Hosted.leave v id rest) ∧
      ∃ asks, Conduct w asks (Hosted.leave v id rest) := by
  obtain ⟨_, hcall, _⟩ := h.call skip queued task own
  have hstill : v.executor.task? id = some p := leads.tasks id p task
  have hbegun : Passes opens skip (some id) [] w past more v :=
    ⟨leads.upheld, hcall.trans leads.undisturbed⟩
  have hleft := hbegun.upheld.leave hstill (fun q hq => (plain q hq).1) own later leased
  have hall := hbegun.trans hleft
  rw [List.append_nil] at hall
  exact ⟨hall, conduct_turn h task other leads.upheld.ordered hstill leads.conduct
    fun q hq => (plain q hq).2⟩

theorem Upheld.runTurn_eq (h : Upheld opens none [] w past) (queued : id ∈ w.executor.ready)
    (task : w.executor.task? id = some p) :
    Hosted.runTurn w id = Gate.Hosting.reap
      (Hosted.leave (Hosted.turn (update w (·.call id)) id p).1 id
        (Hosted.turn (update w (·.call id)) id p).2) := by
  refine Hosted.runTurn_of_task (w := w) queued task ?_
  rw [show (executor w).doomed = [] from h.spared]
  exact List.not_mem_nil

theorem Floats.readerTurn (h : Floats opens settings w acts) (queued : id ∈ w.executor.ready)
    {r : Reader} (task : w.executor.task? id = some (.reader r)) :
    ∃ more, Passes opens none none [] w ((State.fresh settings).history acts) more
        (Hosted.runTurn w id) ∧
      ∃ since, Steady (Hosted.runTurn w id) since := by
  obtain ⟨hcall, _, hidle⟩ := h.upheld.call none queued task nofun
  have hc := h.upheld.leased.paired r.consumer (.inr (.inr ⟨id, r, task, rfl⟩))
  obtain ⟨more, hleads, hreads⟩ := hcall.runReader hidle
    (Hosting.unread (update w (·.call id)) r.consumer).length r hc
  rw [h.upheld.runTurn_eq queued task]
  change ∃ more, Passes opens none none [] w _ more (Gate.Hosting.reap
    (Hosted.leave (runReader _ _ _).1 id (runReader _ _ _).2)) ∧ ∃ since, Steady
      (Gate.Hosting.reap (Hosted.leave (runReader _ _ _).1 id (runReader _ _ _).2)) since
  generalize runReader (Hosting.unread (update w (·.call id)) r.consumer).length
    (update w (·.call id)) r = result at hleads hreads ⊢
  obtain ⟨v, rest⟩ := result
  dsimp only at hleads hreads ⊢
  have hprogram (q : Task) (hq : rest.program? = some q) :
      ∃ s, q = .reader s ∧ s.consumer = r.consumer := by
    rw [Reads, hq] at hreads
    exact hreads
  have hleased : Leased [] (Hosted.leave v id rest) := by
    refine hleads.upheld.leased.leave hleads.upheld.ordered (hleads.tasks id _ task)
      (fun s hs => ?_) fun s heq member => ?_
    · obtain ⟨t, ht, hsame⟩ := hprogram _ hs
      cases ht
      exact ⟨r, rfl, hsame.symm⟩
    · cases heq
      cases hrest : rest.program? with
      | none =>
          rw [Reads, hrest] at hreads
          exact absurd member hreads
      | some q =>
          obtain ⟨s, rfl, hsame⟩ := hprogram q hrest
          exact ⟨s, rfl, hsame⟩
  obtain ⟨hpasses, hconduct⟩ := h.upheld.turned queued task rfl nofun hleads
    (fun q hq => by
      obtain ⟨s, rfl, _⟩ := hprogram q hq
      exact ⟨rfl, rfl⟩)
    (fun i s hs => by
      obtain ⟨_, ht, _⟩ := hprogram _ hs
      cases ht) hleased
  obtain ⟨last, _, hall, hsteady⟩ := hpasses.reaps (steady_conduct h.steady hconduct)
  exact ⟨_, hall, hsteady⟩

theorem Afloat.turnReader (h : Afloat opens settings w acts log) (queued : id ∈ w.executor.ready)
    {r : Reader} (task : w.executor.task? id = some (.reader r)) :
    ∃ more, Afloat opens settings (Hosted.runTurn w id) (acts ++ more) log := by
  obtain ⟨more, hpasses, hsteady⟩ := h.readerTurn queued task
  exact ⟨more, h.passes hpasses hsteady⟩

theorem Afloat.reaped {i : Nat} (h : Afloat opens settings w acts log) (entries : Log)
    (passes : Passes opens (some i) none [] w ((State.fresh settings).history acts) more v)
    (steady : ∃ since, Steady v since)
    (stands : Stands opens i v ((State.fresh settings).history acts ++ w.relay.history more)
      (deedsOf i log ++ deedsOf i entries))
    (others : ∀ j, some i ≠ some j → deedsOf j entries = []) :
    ∃ last, Afloat opens settings (Gate.Hosting.reap v) (acts ++ (more ++ last))
      (log ++ entries) := by
  obtain ⟨last, hreap, hall, hsteady⟩ := passes.reaps steady
  have hother : (none : Option Nat) ≠ some i := nofun
  refine ⟨last, h.extend entries hall hsteady others fun j hj => ?_⟩
  cases hj
  rw [State.history_append, ← passes.undisturbed.relay, ← List.append_assoc]
  exact stands.undisturbed passes.upheld.attended hother hreap.undisturbed

theorem Upheld.cancelled_iff (h : Upheld opens none [] w past) {i : Nat}
    (known : w.gate.isKnown i = true) :
    w.gate.isCancelled i = false ↔ w.gate.isCurrent i = true := by
  obtain ⟨n, hpaced⟩ := h.attended.paced
  exact (hpaced.isCurrent_iff_uncancelled (Gate.State.isKnown_lt known)).symm

theorem Upheld.over_iff (h : Upheld opens none [] w past) {i : Nat}
    (known : w.gate.isKnown i = true) :
    w.gate.isCurrent i = false ↔ w.gate.isCancelled i = true := by
  rw [← Bool.not_eq_true, ← h.cancelled_iff known, Bool.not_eq_false]

theorem Upheld.turnedPump (h : Upheld opens none [] w past) (queued : id ∈ w.executor.ready)
    {i : Nat} {s : Stream} (task : w.executor.task? id = some (.pump i s))
    (does : Does (some id) (update w (·.call id)) more v)
    (own : ∀ a ∈ more, a.concerns i = true) (rest : Rest Signal Task)
    (later : ∀ q, rest.program? = some q → ∃ t, q = .pump i t) :
    Passes opens (some i) none [] w past more (Hosted.leave v id rest) ∧
      ∃ asks, Conduct w asks (Hosted.leave v id rest) := by
  have hsame {j : Nat} {t r : Stream} (heq : Task.pump i r = .pump j t) : some i = some j := by
    cases heq
    rfl
  obtain ⟨hcall, _, hidle⟩ := h.call (some i) queued task fun j t heq => hsame heq
  have hleads : Leads opens (some i) (some id) [] (update w (·.call id)) past more v := by
    refine hcall.does does (fun a ha => ?_) (fun a ha => ?_) hidle
      fun j hj a ha => Act.concerns_other (own a ha) fun heq => hj (congrArg some heq)
    · rintro rfl
      cases own _ ha
    · rintro rfl
      cases own _ ha
  refine h.turned queued task rfl (fun j t heq => hsame heq) hleads (fun q hq => ?_)
    (fun j t hq => ?_) ?_
  · obtain ⟨t, rfl⟩ := later q hq
    exact ⟨rfl, rfl⟩
  · obtain ⟨r, hr⟩ := later _ hq
    exact hsame hr.symm
  · refine hleads.upheld.leased.leave hleads.upheld.ordered (hleads.tasks id _ task)
      (fun t ht => ?_) fun r heq => by cases heq
    obtain ⟨r, hr⟩ := later _ ht
    cases hr

theorem Afloat.pumpEnds (h : Afloat opens settings w acts log) (queued : id ∈ w.executor.ready)
    {i : Nat} {s : Stream} (task : w.executor.task? id = some (.pump i s))
    (cancelled : w.gate.isCancelled i = true)
    (does : Does (some id) (update w (·.call id)) more v)
    (own : ∀ a ∈ more, a.concerns i = true ∧ a ≠ .gate (.activate i)) :
    ∃ last, Afloat opens settings (Gate.Hosting.reap (Hosted.leave v id .ended)) (acts ++ last)
      log := by
  have hstands := h.stands i
  generalize hdeeds : deedsOf i log = deeds at hstands
  cases hstands with
  | unopened hun => exact absurd task (hun.unmanned id s)
  | flows vs k t hflows =>
      have hover := (h.upheld.over_iff hflows.known).mpr cancelled
      rw [hflows.current] at hover
      cases hover
  | finished _ hover =>
      have hbegun := Gate.State.isKnown_lt hover.known
      have horderly : w.relay.orderly more = true := does.orderly
      have hrelay : v.relay = w.relay.after more := does.relay
      have hstarts : v.starts = w.starts := does.starts
      obtain ⟨houtput, hended⟩ := h.upheld.attended.silent_after horderly hbegun hover.finished
      obtain ⟨hpasses, hconduct⟩ :=
        h.upheld.turnedPump queued task does (fun a ha => (own a ha).1) .ended nofun
      have hstill : Over opens i (Hosted.leave v id .ended)
          ((State.fresh settings).history acts ++ w.relay.history more) deeds := by
        rw [leave_eq]
        refine ⟨?_, ?_, ?_, hover.relayed, ?_, ?_,
          fun last => absurd task (hover.unmanned last id s)⟩
        · rw [hstarts]
          exact hover.called
        · exact (does.isKnown fun a ha => (own a ha).2).trans hover.known
        · rw [World.gate, hrelay]
          exact h.upheld.attended.over_after horderly hbegun hover.finished
        · rw [output_append, houtput, List.append_nil, hover.told]
        · rw [ended_append, hended, Bool.or_false, hover.ends]
      obtain ⟨last, hnext⟩ := h.reaped [] hpasses (steady_conduct h.steady hconduct)
        (by
          rw [hdeeds, deedsOf, List.filterMap_nil, List.append_nil]
          exact .finished _ hstill) (fun _ _ => rfl)
      rw [List.append_nil] at hnext
      exact ⟨_, hnext⟩

theorem Afloat.turnPump (h : Afloat opens settings w acts log) (queued : id ∈ w.executor.ready)
    {i : Nat} {s : Stream} (task : w.executor.task? id = some (.pump i s)) :
    (∃ more, Afloat opens settings (Hosted.runTurn w id) (acts ++ more)
      (log ++ (pumpDeeds (update w (·.call id)) i s).map (i, ·))) ∧
    (w.gate.isCurrent i = false → pumpDeeds (update w (·.call id)) i s = []) ∧
    (w.gate.isCurrent i = true →
      Brought i id s (Hosted.runTurn w id) (pumpDeeds (update w (·.call id)) i s)) := by
  have hothers (deeds : List Deed) (j : Nat) (hj : some i ≠ some j) :
      deedsOf j (deeds.map (i, ·)) = [] :=
    deedsOf_other (fun heq => hj (congrArg some heq)) deeds
  have hturn : Hosted.turn (update w (·.call id)) id (Task.pump i s) =
      runPump (update w (·.call id)) i s := rfl
  rw [h.upheld.runTurn_eq queued task, hturn]
  have hstands := h.stands i
  generalize hdeeds : deedsOf i log = deeds at hstands
  cases hstands with
  | unopened hun => exact absurd task (hun.unmanned id s)
  | flows vs k t hflows =>
      cases hflows.only id s task
      cases Option.some.inj (hflows.task.symm.trans task)
      have huncancelled := (h.upheld.cancelled_iff hflows.known).mpr hflows.current
      obtain ⟨more, hdoes, hown, hlater, hstands, hbrought⟩ :=
        hflows.turn huncancelled h.upheld.ordered queued
      obtain ⟨hpasses, hconduct⟩ := h.upheld.turnedPump queued task hdoes hown _ hlater
      have hsteady := steady_conduct h.steady hconduct
      obtain ⟨last, hnext⟩ := h.reaped _ hpasses hsteady (by rwa [hdeeds, deedsOf_own]) (hothers _)
      refine ⟨⟨_, hnext⟩, fun finished => ?_, fun _ => ?_⟩
      · rw [hflows.current] at finished
        cases finished
      · exact hbrought.imp_right fun ⟨vs, t, hvs, htask, hcurrent, hadvances⟩ => by
          rw [hpasses.upheld.reap_of_current hsteady hcurrent]
          exact ⟨vs, t, hvs, htask, hcurrent, hadvances⟩
  | finished _ hover =>
      have hcancelled := (h.upheld.over_iff hover.known).mp hover.finished
      obtain ⟨hrun, hnone, _⟩ := runPump_of_over (w := update w (·.call id)) hcancelled s
      rw [hrun, hnone]
      obtain ⟨hcall, _, _⟩ := h.upheld.call (some i) queued task
        fun j t heq => by cases heq; rfl
      obtain ⟨more, hnext⟩ := h.pumpEnds queued task hcancelled (.refl hcall.ordered) nofun
      rw [List.map_nil, List.append_nil]
      refine ⟨⟨more, hnext⟩, fun _ => rfl, fun current => ?_⟩
      rw [hover.finished] at current
      cases current

theorem Afloat.latePump (h : Afloat opens settings w acts log) (queued : id ∈ w.executor.ready)
    {i : Nat} {s : Stream} (task : w.executor.task? id = some (.pump i s))
    (cancelled : w.gate.isCancelled i = true) :
    ∃ more, Afloat opens settings
      (Gate.Hosting.reap (Hosted.leave (pull (update w (·.call id)) i s).1 id .ended))
      (acts ++ more) log := by
  have hknown : w.gate.isKnown i = true := (h.stands i).known_of_pump task
  obtain ⟨hcall, _, _⟩ := h.upheld.call (some i) queued task fun j t heq => by cases heq; rfl
  obtain ⟨more, hdoes, hown⟩ := pull_does hcall.ordered hknown s
  exact h.pumpEnds queued task cancelled hdoes hown

end Afloat

end Lifecycle.Relay.Scenario
