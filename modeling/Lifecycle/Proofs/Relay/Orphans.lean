import Lifecycle.Proofs.Relay.Relaying

/-!
# Sessions that are left without a pump

When a pump ends, its session has ended before, or ends with it, and nobody goes on to wait for what
will not come.  There is one exception: a stream that panics takes its pump with it, but not its
session.
-/

namespace Lifecycle.Relay

/-! ## The consumers of a session that is over -/

section Leaving

variable {s : State} {past : List Moment} {acts : List Act} {c k : Nat}

theorem inboxes_le_act (s : State) (a : Act) : s.inboxes.length ≤ (s.act a).inboxes.length := by
  by_cases ha : a = .attach
  · simp [ha, State.length_attach]
  · simp [State.length_act ha]

theorem inboxes_le_after (s : State) (acts : List Act) :
    s.inboxes.length ≤ (s.after acts).inboxes.length := by
  induction acts generalizing s with
  | nil => exact Nat.le_refl _
  | cons a rest ih => exact Nat.le_trans (inboxes_le_act s a) (ih (s.act a))

theorem Attended.remains_after (h : Attended s past) (orderly : s.orderly acts = true)
    (old : k < s.inboxes.length) (stays : k ∈ (s.after acts).gate.roster.members) :
    k ∈ s.gate.roster.members ∧
      ∀ c, s.gate.isCurrent c = true → (s.after acts).gate.isCurrent c = true := by
  induction acts generalizing s past with
  | nil => exact ⟨stays, fun _ current => current⟩
  | cons a rest ih =>
      rw [State.orderly_cons] at orderly
      have hold := Nat.lt_of_lt_of_le old (inboxes_le_act s a)
      obtain ⟨hstays, hlater⟩ := ih (h.act orderly.1) orderly.2 hold stays
      obtain ⟨hbefore, hfirst⟩ := h.toKept.remains orderly.1 old hstays
      exact ⟨hbefore, fun c current => hlater c (hfirst c current)⟩

theorem Attended.closes (h : Attended s past) (orderly : s.orderly acts = true)
    (current : s.gate.isCurrent c = true) (finished : (s.after acts).gate.isCurrent c = false)
    (old : k < s.inboxes.length) :
    ∃ b, (s.after acts).inboxes[k]? = some b ∧ b.closed = true := by
  have hk := Nat.lt_of_lt_of_le old (inboxes_le_after s acts)
  have hgone : k ∉ (s.after acts).gate.roster.members := by
    intro stays
    rw [(h.remains_after orderly old stays).2 c current] at finished
    cases finished
  have hshut := mt ((h.after orderly).places k).mp hgone
  refine ⟨_, List.getElem?_eq_getElem hk, ?_⟩
  simpa [State.isOpen, hk] using hshut

end Leaving

end Lifecycle.Relay

namespace Lifecycle.Relay.Scenario

open HasExecutor
open Gate.Hosting (Steady)

/-! ## Panics -/

namespace World

/-- The session whose stream panics in the turn of the task. -/
def breaks (w : World) : Task → List Nat
  | .pump i s => (pumpPanics w i s).map fun _ => i
  | _ => []

def crashes (w : World) : Act → List Nat
  | .turn id =>
      if w.executor.doomed.contains id then []
      else ((w.executor.task? id).map (update w (·.call id)).breaks).getD []
  | _ => []

/-- The sessions whose streams panic in the course of the run before they are over. -/
def crashed (w : World) : List Act → List Nat
  | [] => []
  | a :: rest => w.crashes a ++ (w.perform a).crashed rest

end World

def Unmanned (i : Nat) (w : World) : Prop := ∀ id s, w.executor.task? id ≠ some (.pump i s)

structure Orphaned (i : Nat) (w : World) : Prop where
  called : i < w.starts
  unmanned : Unmanned i w
  current : w.gate.isCurrent i = true

/-- How a session and its pumps stand to each other when its stream has panicked or not. -/
structure Tended (i : Nat) (w : World) (broken : Bool) : Prop where
  called : i < w.starts ↔ w.gate.isKnown i = true
  whole : w.starts ≤ i → broken = false
  unmanned : w.starts ≤ i ∨ broken = true → Unmanned i w
  alone : ∀ id k s t, w.executor.task? id = some (.pump i s) →
    w.executor.task? k = some (.pump i t) → id = k
  manned : i < w.starts → w.gate.isCurrent i = true → broken = false → ¬Unmanned i w

section Tended

variable {opens : Nat → Stream} {settings : RelaySettings} {skip : Option Nat}
  {turn : Option TaskId} {id : TaskId} {v w : World} {past : List Moment}
  {acts more : List Relay.Act} {i : Nat} {s : Stream} {broken : Bool} {rest : Rest Signal Task}
  {panics : List Panic} {crashed crashes : List Nat}

theorem Tended.orphaned_iff (h : Tended i w broken) :
    Orphaned i w ↔ broken = true ∧ w.gate.isCurrent i = true := by
  constructor
  · intro ⟨called, unmanned, current⟩
    cases broken with
    | true => exact ⟨rfl, current⟩
    | false => exact absurd unmanned (h.manned called current rfl)
  · rintro ⟨rfl, current⟩
    have hcalled : i < w.starts := Nat.lt_of_not_le fun early => nomatch h.whole early
    exact ⟨hcalled, h.unmanned (.inr rfl), current⟩

theorem Tended.of_pump (h : Tended i w broken) (task : w.executor.task? id = some (.pump i s)) :
    broken = false ∧ w.gate.isKnown i = true :=
  ⟨Bool.eq_false_iff.mpr fun panicked => h.unmanned (.inr panicked) id s task,
    h.called.mp (Nat.lt_of_not_le fun early => h.unmanned (.inl early) id s task)⟩

theorem Tended.undisturbed (h : Tended i w broken) (attended : Attended w.relay past)
    (other : skip ≠ some i) (undisturbed : Undisturbed skip w acts v) : Tended i v broken := by
  have hstarts := undisturbed.starts i other
  have hpumps := undisturbed.pumps i other
  have hunmanned : Unmanned i v ↔ Unmanned i w := by simp only [Unmanned, ne_eq, hpumps]
  have hknown : v.gate.isKnown i = w.gate.isKnown i := by
    rw [World.gate, World.gate, undisturbed.relay, isKnown_of_apart (undisturbed.apart i other)]
  have hearly : v.starts ≤ i ↔ w.starts ≤ i := by omega
  constructor
  · rw [hstarts, hknown, h.called]
  · rw [hearly]
    exact h.whole
  · rw [hearly, hunmanned]
    exact h.unmanned
  · intro id k s t hid hk
    exact h.alone id k s t ((hpumps id s).mp hid) ((hpumps k t).mp hk)
  · intro called current whole
    rw [hunmanned]
    have hcalled := hstarts.mp called
    refine h.manned hcalled ?_ whole
    cases hcurrent : w.gate.isCurrent i with
    | true => rfl
    | false =>
        have hover := attended.over_after undisturbed.orderly
          (Gate.State.isKnown_lt (h.called.mp hcalled)) hcurrent
        rw [World.gate, undisturbed.relay, hover] at current
        cases current

/-! ## The turn of a pump -/

theorem Does.closes {vs : List Value} {input : Input}
    (does : Does turn w (vs.map (.emit i) ++ [.gate input]) v)
    (current : w.gate.isCurrent i = true)
    (ends : ∀ t : State, t.gate.isCurrent i = true → Moment.ends i ⟨t, .gate input⟩ = true) :
    v.gate.isCurrent i = false := by
  rw [World.gate, does.relay, State.after_append]
  exact over_of_ends (ends _ (output_emits current vs).2.2)

/-- A turn of its pump goes on with the session, or the pump ends.  Only a stream that panics leaves
its session as it is. -/
theorem runPump_cases (ordered : w.executor.Ordered turn) (known : w.gate.isKnown i = true)
    (cancelled : w.gate.isCancelled i = false ↔ w.gate.isCurrent i = true) (s : Stream) :
    ∃ acts, Does turn w acts (runPump w i s).1 ∧
      (∀ a ∈ acts, a.concerns i = true ∧ a ≠ .gate (.activate i)) ∧
      ((∃ t, (runPump w i s).2.program? = some (.pump i t)) ∧ pumpPanics w i s = [] ∨
        (runPump w i s).2 = .ended ∧
          ((runPump w i s).1.gate.isCurrent i = true ↔ pumpPanics w i s ≠ [])) := by
  cases hcurrent : w.gate.isCurrent i with
  | false =>
      have hcancelled : w.gate.isCancelled i = true := by
        rw [hcurrent] at cancelled
        simpa using cancelled
      obtain ⟨hrun, _, hcalm⟩ := runPump_of_over hcancelled s
      rw [hrun, hcalm]
      exact ⟨[], .refl ordered, nofun, .inr ⟨rfl, by simp [hcurrent]⟩⟩
  | true =>
      have hpumped := pumped ordered ⟨known, hcurrent, cancelled.mpr hcurrent⟩ (s := s)
      generalize runPump w i s = result at hpumped ⊢
      obtain ⟨v, rest⟩ := result
      generalize pumpDeeds w i s = deeds at hpumped
      generalize pumpPanics w i s = panics at hpumped ⊢
      dsimp only at hpumped ⊢
      cases hpumped with
      | waits vs p q items latches deadline brings remains does =>
          exact ⟨_, does, concerns_emits i vs, .inl ⟨⟨_, rfl⟩, rfl⟩⟩
      | advances vs t brings next does =>
          exact ⟨_, does, concerns_emits i vs, .inl ⟨⟨t, rfl⟩, rfl⟩⟩
      | completes vs brings finished does =>
          have hover := does.closes hcurrent fun t ht => ends_of_completed ht
          exact ⟨_, does, concerns_emits_last vs _ (beq_self_eq_true i) nofun,
            .inr ⟨rfl, by simp [hover]⟩⟩
      | fails vs e later brings does =>
          have hover := does.closes hcurrent fun t ht => ends_of_failed ht
          exact ⟨_, does, concerns_emits_last vs _ (beq_self_eq_true i) nofun,
            .inr ⟨rfl, by simp [hover]⟩⟩
      | panics vs p mem does serves =>
          exact ⟨_, does, concerns_emits i vs, .inr ⟨rfl, by simp [serves.current]⟩⟩

theorem Tended.left (h : Tended i w false) (task : w.executor.task? id = some (.pump i s))
    (does : Does (some id) (update w (·.call id)) acts v)
    (own : ∀ a ∈ acts, a ≠ .gate (.activate i))
    (course : (∃ t, rest.program? = some (.pump i t)) ∧ panics = [] ∨
      rest = .ended ∧ (v.gate.isCurrent i = true ↔ panics ≠ [])) :
    Tended i (Hosted.leave v id rest) (!panics.isEmpty) := by
  have hstill : v.executor.task? id = some (.pump i s) := (does.task_iff rfl).mpr task
  have hleft : (v.executor.left id rest).task? id = rest.program? :=
    Executor.task?_left (by rw [hstill]; rfl) rest
  have hown (k : TaskId) (t : Stream) (hk : (v.executor.left id rest).task? k =
      some (.pump i t)) : k = id ∧ rest.program? = some (.pump i t) := by
    by_cases hid : k = id
    · subst hid
      exact ⟨rfl, hleft ▸ hk⟩
    · have hkeeps := Executor.keeps_left does.ordered.turn rest
      have hold := (hkeeps.task k fun heq => hid (Option.some.inj heq).symm).symm.trans hk
      exact absurd (h.alone k id t s ((does.task_iff rfl).mp hold) task) hid
  have hcalled : i < w.starts :=
    Nat.lt_of_not_le fun early => h.unmanned (.inl early) id s task
  have hknown : v.gate.isKnown i = true := (does.isKnown own).trans (h.called.mp hcalled)
  have hopened : i < v.starts := by
    rw [does.starts]
    exact hcalled
  rw [leave_eq]
  constructor
  · exact ⟨fun _ => hknown, fun _ => hopened⟩
  · exact fun early => absurd hopened (Nat.not_lt_of_le early)
  · rintro (early | broken) k t hk
    · exact absurd hopened (Nat.not_lt_of_le early)
    · have hprogram := (hown k t hk).2
      rcases course with ⟨_, rfl⟩ | ⟨rfl, _⟩
      · cases broken
      · cases hprogram
  · intro k l r t hk hl
    rw [(hown k r hk).1, (hown l t hl).1]
  · intro _ current whole unmanned
    rcases course with ⟨⟨t, hprogram⟩, _⟩ | ⟨_, hcurrent⟩
    · exact unmanned id t (hleft.trans hprogram)
    · exact hcurrent.mp current (by simpa using whole)

/-! ## The turn that opens a stream -/

theorem tended_opened (ordered : w.executor.Ordered turn) (starts : w.starts = i)
    (known : w.gate.isKnown i = true) (unmanned : Unmanned i w) :
    Tended i (opened opens w i) false := by
  have hstarts : (opened opens w i).starts = i + 1 := congrArg (· + 1) starts
  have hnew (k : TaskId) (t : Stream)
      (hk : (opened opens w i).executor.task? k = some (.pump i t)) : k = w.executor.nextTask := by
    rcases Executor.task?_of_spawn ordered.toNumbered hk with ⟨hnext, _⟩ | hold
    · exact hnext
    · exact absurd hold (unmanned k t)
  have htask : (opened opens w i).executor.task? w.executor.nextTask =
      some (.pump i (opens w.starts)) := Executor.task?_spawn ordered.toNumbered _
  constructor
  · exact ⟨fun _ => known, fun _ => by omega⟩
  · intro early
    omega
  · rintro (early | broken)
    · omega
    · cases broken
  · intro k l r t hk hl
    rw [hnew k r hk, hnew l t hl]
  · exact fun _ _ _ hnone => hnone _ _ htask

/-! ## Runs -/

structure Tends (opens : Nat → Stream) (settings : RelaySettings) (w : World)
    (acts : List Relay.Act) (crashed : List Nat) : Prop
    extends Floats opens settings w acts where
  tended : ∀ i, Tended i w (crashed.contains i)

theorem Tends.extend (h : Tends opens settings w acts crashed) (crashes : List Nat)
    (passes : Passes opens skip none [] w ((State.fresh settings).history acts) more v)
    (steady : ∃ since, Steady v since) (others : ∀ i, skip ≠ some i → i ∉ crashes)
    (own : ∀ i, skip = some i → Tended i v ((crashed ++ crashes).contains i)) :
    Tends opens settings v (acts ++ more) (crashed ++ crashes) where
  toFloats := h.toFloats.extend passes steady
  tended i := by
    by_cases hi : skip = some i
    · exact own i hi
    · have hsame : (crashed ++ crashes).contains i = crashed.contains i := by
        simp [others i hi]
      rw [hsame]
      exact (h.tended i).undisturbed h.upheld.attended hi passes.undisturbed

theorem Tends.passes (h : Tends opens settings w acts crashed)
    (passes : Passes opens none none [] w ((State.fresh settings).history acts) more v)
    (steady : ∃ since, Steady v since) : Tends opens settings v (acts ++ more) crashed := by
  have hnext := h.extend [] passes steady (fun _ _ => List.not_mem_nil) nofun
  rwa [List.append_nil] at hnext

theorem Tends.reaped (h : Tends opens settings w acts crashed) (crashes : List Nat)
    (passes : Passes opens (some i) none [] w ((State.fresh settings).history acts) more v)
    (steady : ∃ since, Steady v since) (others : ∀ j ∈ crashes, j = i)
    (tended : Tended i v ((crashed ++ crashes).contains i)) :
    ∃ last, Tends opens settings (Gate.Hosting.reap v) (acts ++ (more ++ last))
      (crashed ++ crashes) := by
  obtain ⟨last, hreap, hall, hsteady⟩ := passes.reaps steady
  refine ⟨last, h.extend crashes hall hsteady (fun j hj mem => ?_) fun j hj => ?_⟩
  · exact hj (congrArg some (others j mem).symm)
  · cases hj
    exact tended.undisturbed passes.upheld.attended (nofun : (none : Option Nat) ≠ some i)
      hreap.undisturbed

theorem crashes_turn (h : Upheld opens none [] w past) {p : Task}
    (task : w.executor.task? id = some p) :
    w.crashes (.turn id) = (update w (·.call id)).breaks p := by
  simp only [World.crashes, h.spared, task]
  rfl

theorem Tends.turnPump (h : Tends opens settings w acts crashed) (queued : id ∈ w.executor.ready)
    (task : w.executor.task? id = some (.pump i s)) :
    (∃ more, Tends opens settings (Hosted.runTurn w id) (acts ++ more)
      (crashed ++ (update w (·.call id)).breaks (.pump i s))) ∧
    (pumpPanics (update w (·.call id)) i s ≠ [] →
      (Hosted.runTurn w id).gate.isCurrent i = true) := by
  have htended := h.tended i
  obtain ⟨hwhole, hknown⟩ := htended.of_pump task
  rw [hwhole] at htended
  obtain ⟨hcall, _, _⟩ := h.upheld.call (some i) queued task fun j t heq => by cases heq; rfl
  obtain ⟨more, hdoes, hown, hcourse⟩ :=
    runPump_cases hcall.ordered hknown (h.upheld.cancelled_iff hknown) s
  have hturn : Hosted.turn (update w (·.call id)) id (Task.pump i s) =
      runPump (update w (·.call id)) i s := rfl
  rw [h.upheld.runTurn_eq queued task, hturn, World.breaks]
  generalize runPump (update w (·.call id)) i s = result at hdoes hcourse ⊢
  obtain ⟨v, rest⟩ := result
  generalize pumpPanics (update w (·.call id)) i s = panics at hcourse ⊢
  have hlater (q : Task) (hq : rest.program? = some q) : ∃ t, q = .pump i t := by
    rcases hcourse with ⟨⟨t, hprogram⟩, _⟩ | ⟨hrest, _⟩
    · exact ⟨t, Option.some.inj (hq.symm.trans hprogram)⟩
    · rw [show rest = .ended from hrest] at hq
      cases hq
  have hbroken : (crashed ++ panics.map fun _ => i).contains i = !panics.isEmpty := by
    rw [List.contains_append, hwhole]
    cases panics <;> simp
  obtain ⟨hpasses, hconduct⟩ :=
    h.upheld.turnedPump queued task hdoes (fun a ha => (hown a ha).1) rest hlater
  have hsteady := steady_conduct h.steady hconduct
  have hleft := htended.left task hdoes (fun a ha => (hown a ha).2) hcourse
  obtain ⟨last, hnext⟩ := h.reaped _ hpasses hsteady (by simp) (hbroken ▸ hleft)
  refine ⟨⟨_, hnext⟩, fun hpanics => ?_⟩
  rcases hcourse with ⟨_, hnone⟩ | ⟨_, hcurrent⟩
  · exact absurd hnone hpanics
  · have hstill : (Hosted.leave v id rest).gate.isCurrent i = true := by
      rw [leave_eq]
      exact hcurrent.mpr hpanics
    rw [hpasses.upheld.reap_of_current hsteady hstill]
    exact hstill

theorem Tends.turnGate (h : Tends opens settings w acts crashed) (queued : id ∈ w.executor.ready)
    {t : Gate.Task Hook} (task : w.executor.task? id = some (.gate t)) :
    ∃ more, Tends opens settings (Hosted.runTurn w id) (acts ++ more) crashed := by
  have hcalled (j : Nat) : j < w.starts ↔ w.gate.isKnown j = true := (h.tended j).called
  obtain ⟨hsteady, ⟨_, more, hpasses⟩ | ⟨i, more, _, hopens⟩⟩ := h.gateTurn hcalled queued task
  · exact ⟨more, h.passes hpasses hsteady⟩
  · obtain ⟨hcall, _, _⟩ := h.upheld.call none queued task nofun
    have hstarts := starts_of_due h.upheld.attended.paced hopens.due hcalled
    have hasked := (Beside.input hcall.ordered (.activate i)).ordered
    have hearly : w.starts ≤ i := Nat.le_of_eq hstarts
    have htended : Tended i
        (opened opens (Gate.Hosting.input (update w (·.call id)) (.activate i)) i) false := by
      rw [hopens.input] at hasked ⊢
      exact tended_opened hasked hstarts hopens.due.isKnown_running
        ((h.tended i).unmanned (.inl hearly))
    have hnext := htended.undisturbed hopens.begins.upheld.attended
      (nofun : (none : Option Nat) ≠ some i) hopens.follows
    rw [← List.append_nil crashed]
    refine ⟨_, h.extend [] hopens.passes hsteady (fun _ _ => List.not_mem_nil) fun j hj => ?_⟩
    cases hj
    rw [List.append_nil, (h.tended i).whole hearly]
    exact hnext

theorem Tends.runTurn (h : Tends opens settings w acts crashed) (queued : id ∈ w.executor.ready) :
    (∃ more, Tends opens settings (Hosted.runTurn w id) (acts ++ more)
      (crashed ++ w.crashes (.turn id))) ∧
    ∀ i ∈ w.crashes (.turn id), (Hosted.runTurn w id).gate.isCurrent i = true := by
  obtain ⟨p, task⟩ := Option.isSome_iff_exists.mp (h.upheld.ordered.queued id queued)
  have hplain := h.upheld.plain id p task
  rw [crashes_turn h.upheld task]
  cases p with
  | gate t =>
      simp only [World.breaks, List.append_nil]
      exact ⟨h.turnGate queued task, nofun⟩
  | watch name i => cases hplain
  | work i items => cases hplain
  | pump i s =>
      obtain ⟨hnext, hstays⟩ := h.turnPump queued task
      refine ⟨hnext, fun j mem => ?_⟩
      obtain ⟨p, hp, rfl⟩ := List.mem_map.mp mem
      exact hstays (List.ne_nil_of_mem hp)
  | reader r =>
      obtain ⟨more, hpasses, hsteady⟩ := h.readerTurn queued task
      simp only [World.breaks, List.append_nil]
      exact ⟨⟨more, h.passes hpasses hsteady⟩, nofun⟩

theorem Tends.latePump (h : Tends opens settings w acts crashed) (queued : id ∈ w.executor.ready)
    (task : w.executor.task? id = some (.pump i s)) (cancelled : w.gate.isCancelled i = true) :
    ∃ more, Tends opens settings
      (Gate.Hosting.reap (Hosted.leave (pull (update w (·.call id)) i s).1 id .ended))
      (acts ++ more) crashed := by
  have htended := h.tended i
  obtain ⟨hwhole, hknown⟩ := htended.of_pump task
  rw [hwhole] at htended
  obtain ⟨hcall, _, _⟩ := h.upheld.call (some i) queued task fun j t heq => by cases heq; rfl
  obtain ⟨more, hdoes, hown⟩ := pull_does hcall.ordered hknown s
  have hover : w.relay.gate.isCurrent i = false := (h.upheld.over_iff hknown).mpr cancelled
  have hstill : (pull (update w (·.call id)) i s).1.gate.isCurrent i = false := by
    rw [World.gate, hdoes.relay]
    exact h.upheld.attended.over_after hdoes.orderly (Gate.State.isKnown_lt hknown) hover
  have hcalm : (pull (update w (·.call id)) i s).1.gate.isCurrent i = true ↔
      ([] : List Panic) ≠ [] := by simp [hstill]
  have hleft : Tended i (Hosted.leave (pull (update w (·.call id)) i s).1 id .ended) false :=
    htended.left task hdoes (fun a ha => (hown a ha).2) (.inr ⟨rfl, hcalm⟩)
  obtain ⟨hpasses, hconduct⟩ :=
    h.upheld.turnedPump queued task hdoes (fun a ha => (hown a ha).1) .ended fun _ hq => by cases hq
  obtain ⟨last, hnext⟩ := h.reaped [] hpasses (steady_conduct h.steady hconduct)
    (List.forall_mem_nil _) (by rwa [List.append_nil, hwhole])
  rw [List.append_nil] at hnext
  exact ⟨_, hnext⟩

/-- What one act preserves.  A stream that panics leaves its session without a pump. -/
theorem Tends.perform {a : Act} (h : Tends opens settings w acts crashed)
    (admitted : w.admits a = true) :
    (∃ more, Tends opens settings (w.perform a) (acts ++ more) (crashed ++ w.crashes a)) ∧
    ∀ i ∈ w.crashes a, (w.perform a).gate.isCurrent i = true := by
  cases a with
  | step s =>
      obtain ⟨more, hleads⟩ := h.upheld.step admitted
      obtain ⟨last, _, hall, hsteady⟩ :=
        hleads.toPasses.reaps (steady_conduct h.steady hleads.conduct)
      simp only [World.crashes, List.append_nil]
      exact ⟨⟨_, h.passes hall hsteady⟩, nofun⟩
  | turn id => exact h.runTurn (List.contains_iff_mem.mp admitted)
  | late id =>
      obtain ⟨queued, i, s, task, cancelled⟩ := World.admits_late admitted
      obtain ⟨more, hnext⟩ := h.latePump queued task cancelled
      have hcrashed : crashed ++ w.crashes (.late id) = crashed := List.append_nil crashed
      rw [hcrashed, World.perform, task]
      exact ⟨⟨more, hnext⟩, List.forall_mem_nil _⟩
  | clock target =>
      simp only [World.admits, Bool.and_eq_true, List.isEmpty_iff, decide_eq_true_eq,
        List.all_eq_true] at admitted
      obtain ⟨hpasses, hsteady⟩ := h.moveClock admitted.1.1 admitted.1.2 admitted.2
      simp only [World.crashes, List.append_nil]
      exact ⟨⟨_, h.passes hpasses hsteady⟩, nofun⟩

theorem Tends.after {later : List Act} (h : Tends opens settings w acts crashed)
    (orderly : w.orderly later = true) :
    ∃ more, Tends opens settings (w.after later) (acts ++ more) (crashed ++ w.crashed later) := by
  induction later generalizing w acts crashed with
  | nil =>
      refine ⟨[], ?_⟩
      rwa [List.append_nil, World.crashed, List.append_nil]
  | cons a rest ih =>
      rw [World.orderly_cons] at orderly
      obtain ⟨⟨more, hnext⟩, _⟩ := h.perform orderly.1
      obtain ⟨last, hlast⟩ := ih hnext orderly.2
      refine ⟨more ++ last, ?_⟩
      rwa [← List.append_assoc, World.crashed, ← List.append_assoc]

theorem tends_start {setup : Setup} (flowing : setup.feed = .flowing opens) :
    Tends opens setup.settings setup.world [] [] where
  toFloats := (afloat_start flowing).toFloats
  tended _ := ⟨⟨nofun, nofun⟩, fun _ => rfl, fun _ _ _ => nofun, nofun, nofun⟩

/-! ## The theorem -/

theorem current_of_serving (paced : ∃ n, w.gate.Paced n)
    (serving : w.gate.phase = .active ∨ w.gate.phase = .draining) :
    ∃ i, w.gate.isKnown i = true ∧ w.gate.isCurrent i = true := by
  obtain ⟨n, hpaced⟩ := paced
  have hpace := hpaced.pace
  have hserved : w.gate.phase.isLive = true ∧ n = 4 * w.gate.teardowns.length + 2 := by
    rcases serving with hphase | hphase <;> rw [hphase] at hpace ⊢ <;> exact ⟨rfl, hpace⟩
  have hcount := hpaced.count_eq hserved.1
  exact ⟨w.gate.teardowns.length, (hpaced.isKnown_iff _).mpr ⟨by omega, by omega⟩,
    (hpaced.isCurrent_iff _).mpr ⟨hserved.1, rfl⟩⟩

end Tended

/-- A relay whose feed opens streams.  Sessions whose streams do not panic are over as soon as their
pumps have ended; those whose streams panic stay as they are, without a pump.  With a session that
is over all its consumers have gone. -/
theorem panics_orphan_sessions (setup : Setup) (opens : Nat → Stream)
    (flowing : setup.feed = .flowing opens) (acts : List Act)
    (orderly : setup.world.orderly acts = true) :
    let w := setup.world.after acts
    let crashed := setup.world.crashed acts
    (∀ i, Orphaned i w ↔ i ∈ crashed ∧ w.gate.isCurrent i = true) ∧
    (∀ a, w.admits a = true → ∀ i ∈ w.crashes a, Orphaned i (w.perform a)) ∧
    (w.gate.phase = .active ∨ w.gate.phase = .draining →
      ∃ i < w.starts, w.gate.isCurrent i = true ∧ (i ∉ crashed → ¬Unmanned i w)) ∧
    (∀ earlier later i, acts = earlier ++ later →
      (setup.world.after earlier).gate.isCurrent i = true → w.gate.isCurrent i = false →
      ∀ k < (setup.world.after earlier).relay.inboxes.length,
        ∃ b, w.relay.inboxes[k]? = some b ∧ b.closed = true) := by
  obtain ⟨history, htends⟩ := (tends_start flowing).after orderly
  rw [List.nil_append, List.nil_append] at htends
  refine ⟨fun i => ?_, fun a admitted i mem => ?_, fun serving => ?_, ?_⟩
  · rw [← List.contains_iff_mem]
    exact (htends.tended i).orphaned_iff
  · obtain ⟨⟨more, hnext⟩, hstays⟩ := htends.perform admitted
    refine (hnext.tended i).orphaned_iff.mpr ⟨?_, hstays i mem⟩
    exact List.contains_iff_mem.mpr (List.mem_append_right _ mem)
  · obtain ⟨i, known, current⟩ := current_of_serving htends.upheld.attended.paced serving
    have hcalled := (htends.tended i).called.mpr known
    exact ⟨i, hcalled, current, fun whole => (htends.tended i).manned hcalled current
      (Bool.eq_false_iff.mpr (mt List.contains_iff_mem.mp whole))⟩
  · rintro earlier later i rfl current finished k old
    obtain ⟨horderly, hlater⟩ := (World.orderly_append _ _ _).mp orderly
    obtain ⟨past, hbefore⟩ := (tends_start flowing).after horderly
    obtain ⟨more, hnow⟩ := hbefore.after hlater
    rw [World.after_append] at finished ⊢
    rw [hnow.relay, State.after_append, ← hbefore.relay]
    rw [World.gate, hnow.relay, State.after_append, ← hbefore.relay] at finished
    have hmore := ((State.orderly_append _ _ _).mp hnow.orderly).2
    rw [← hbefore.relay] at hmore
    exact hbefore.upheld.attended.closes hmore current finished old

/-! Every stream brings one value and panics.  The first reader waits in vain, until it leaves; the
second finds a session of its own, which comes to the same end. -/

namespace Brittle

def opens (_ : Nat) : Stream := { items := [.value (.number 0), .panic (.text "pump")] }

def setup : Setup := { settings := { grace := .zero }, feed := .flowing opens }

def acts : List Act :=
  [.step (.attach "first"), .turn 0, .turn 1, .step (.detach "first"), .turn 2,
    .step (.attach "second"), .turn 3, .turn 4]

end Brittle

theorem brittle_streams_orphan_sessions :
    Brittle.setup.feed = .flowing Brittle.opens ∧
      Brittle.setup.world.orderly Brittle.acts = true ∧
      Brittle.setup.world.crashed Brittle.acts = [0, 1] ∧
      ¬Orphaned 0 (Brittle.setup.world.after Brittle.acts) ∧
      Orphaned 1 (Brittle.setup.world.after Brittle.acts) := by
  have horderly : Brittle.setup.world.orderly Brittle.acts = true := by decide +kernel
  have hcrashed : Brittle.setup.world.crashed Brittle.acts = [0, 1] := by decide +kernel
  obtain ⟨horphaned, _⟩ :=
    panics_orphan_sessions Brittle.setup Brittle.opens rfl Brittle.acts horderly
  refine ⟨rfl, horderly, hcrashed, ?_, ?_⟩ <;> rw [horphaned, hcrashed]
  · decide +kernel
  · decide +kernel

theorem panic_ends_pump_but_not_session :
    ¬∀ (setup : Setup) (opens : Nat → Stream), setup.feed = .flowing opens →
      ∀ acts, setup.world.orderly acts = true → ∀ i < (setup.world.after acts).starts,
        Unmanned i (setup.world.after acts) →
          (setup.world.after acts).gate.isCurrent i = false := by
  intro h
  have htasks :
      (Brittle.setup.world.after (Brittle.acts.take 3)).executor.tasks.isEmpty = true := by
    decide +kernel
  have hunmanned : Unmanned 0 (Brittle.setup.world.after (Brittle.acts.take 3)) := by
    intro id s task
    rw [Executor.task?, List.isEmpty_iff.mp htasks] at task
    cases task
  have hover := h Brittle.setup Brittle.opens rfl (Brittle.acts.take 3) (by decide +kernel) 0
    (by decide +kernel) hunmanned
  revert hover
  decide +kernel

end Lifecycle.Relay.Scenario
