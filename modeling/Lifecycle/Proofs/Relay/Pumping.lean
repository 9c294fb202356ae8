import Lifecycle.Proofs.Relay.Standing

/-!
# A session goes on with its stream

In a turn of its pump a session emits the values of a portion up to the first pause that is not
over, or it fails, or it completes at the end of the stream.  A pump that comes late to its stream
asks for no more than that, and for no other session.
-/

namespace Lifecycle.Relay

section Emissions

variable {s : State} {i : Nat}

theorem output_emits (current : s.gate.isCurrent i = true) (vs : List Value) :
    output i (s.history (vs.map (.emit i))) = vs.map .value ∧
      ended i (s.history (vs.map (.emit i))) = false ∧
      (s.after (vs.map (.emit i))).gate.isCurrent i = true := by
  induction vs generalizing s with
  | nil => exact ⟨rfl, rfl, current⟩
  | cons x rest ih =>
      have hnext : (s.act (.emit i x)).gate.isCurrent i = true := by
        rw [s.gate_act, State.occasion?, Option.elim_some, Gate.State.take]
        simp only [Gate.State.step, current, if_true]
        exact current
      obtain ⟨houtput, hended, hcurrent⟩ := ih hnext
      have hgives : Moment.gives? i ⟨s, .emit i x⟩ = some (.value x) := if_pos ⟨rfl, current⟩
      refine ⟨?_, ?_, hcurrent⟩
      · rw [List.map_cons, State.history, output, List.filterMap_cons_some hgives]
        exact congrArg (_ :: ·) houtput
      · rw [List.map_cons, State.history, ended, List.any_cons]
        exact hended

theorem concerns_emits (i : Nat) (vs : List Value) :
    ∀ a ∈ vs.map (Act.emit i), a.concerns i = true ∧ a ≠ .gate (.activate i) := by
  intro a ha
  obtain ⟨x, _, rfl⟩ := List.mem_map.mp ha
  exact ⟨beq_self_eq_true i, Act.noConfusion⟩

theorem concerns_emits_last (vs : List Value) (input : Input)
    (own : (Act.gate input).concerns i = true) (other : input ≠ .activate i) :
    ∀ a ∈ vs.map (Act.emit i) ++ [.gate input],
      a.concerns i = true ∧ a ≠ .gate (.activate i) := by
  intro a ha
  rcases List.mem_append.mp ha with hemit | hlast
  · exact concerns_emits i vs a hemit
  · rw [List.mem_singleton.mp hlast]
    exact ⟨own, fun heq => other (Act.gate.inj heq)⟩

end Emissions

end Lifecycle.Relay

namespace Lifecycle.Relay.Scenario

open HasExecutor

section Turn

variable {opens : Nat → Stream} {i : Nat} {id : TaskId} {s t : Stream} {u v w : World}
  {past : List Moment} {acts : List Relay.Act} {deeds : List Deed} {rest : Rest Signal Task}
  {vs more : List Value}

theorem Does.isKnown {turn : Option TaskId} (does : Does turn w acts v)
    (other : ∀ a ∈ acts, a ≠ .gate (.activate i)) : v.gate.isKnown i = w.gate.isKnown i := by
  rw [World.gate, does.relay]
  exact isKnown_after other w.relay

theorem Flows.eq_of_left (h : Flows opens i w past vs id s)
    (does : Does (some id) (update w (·.call id)) acts v) {k : TaskId} {r : Stream}
    (task : (v.executor.left id rest).task? k = some (.pump i r)) : k = id := by
  by_contra hid
  have hkeeps := Executor.keeps_left does.ordered.turn rest
  have hold := (hkeeps.task k fun heq => hid (Option.some.inj heq).symm).symm.trans task
  exact hid (h.only k r ((does.task_iff rfl).mp hold))

theorem Flows.goes_on (h : Flows opens i w past vs id s)
    (does : Does (some id) (update w (·.call id)) (more.map (.emit i)) v) (serves : Serves v i)
    (program : rest.program? = some (.pump i t)) (goesOn : s.GoesOn (more.map .value) t)
    (calm : t.Calm) (poised : Poised (Hosted.leave v id rest) id t) :
    Stands opens i (Hosted.leave v id rest) (past ++ w.relay.history (more.map (.emit i)))
      (relaying i vs ++ more.map (.value · true)) := by
  obtain ⟨houtput, hended, _⟩ := output_emits (s := w.relay) h.current more
  have htask : v.executor.task? id = some (.pump i s) := (does.task_iff rfl).mpr h.task
  have hstarts : v.starts = w.starts := does.starts
  rw [leave_eq] at poised ⊢
  rw [relaying_append]
  refine .flows (vs ++ more) id t ⟨?_, serves.known, serves.current, ?_,
    fun k r hk => h.eq_of_left does hk, ?_, calm, poised, ?_, ?_⟩
  · rw [hstarts]
    exact h.called
  · exact (Executor.task?_left (by rw [htask]; rfl) rest).trans program
  · rw [List.map_append]
    exact h.goesOn.trans goesOn
  · rw [output_append, houtput, h.told, List.map_append]
  · rw [ended_append, hended, h.quiet]
    rfl

theorem Flows.ends (h : Flows opens i w past vs id s) {input : Input} {last : Deed}
    (does : Does (some id) (update w (·.call id)) (more.map (.emit i) ++ [.gate input]) v)
    (own : ∀ a ∈ more.map (Relay.Act.emit i) ++ [.gate input], a ≠ .gate (.activate i))
    (ends : ∀ t : State, t.gate.isCurrent i = true → Moment.ends i ⟨t, .gate input⟩ = true ∧
      Moment.gives? i ⟨t, .gate input⟩ = last.gives?) (isLast : last.isLast = true)
    (stops : rest.program? = none)
    (relayed : Relayed i (opens i) (relaying i (vs ++ more) ++ [last])) :
    Stands opens i (Hosted.leave v id rest)
      (past ++ w.relay.history (more.map (.emit i) ++ [.gate input]))
      (relaying i vs ++ (more.map (.value · true) ++ [last])) := by
  have hcurrent : w.relay.gate.isCurrent i = true := h.current
  obtain ⟨houtput, hended, hstill⟩ := output_emits hcurrent more
  obtain ⟨hends, hgives⟩ := ends _ hstill
  have hrelay : v.relay = _ := does.relay
  have hstarts : v.starts = w.starts := does.starts
  have hlast : output i [⟨w.relay.after (more.map (.emit i)), .gate input⟩] =
      [last].filterMap Deed.gives? := by
    rw [output_singleton, hgives]
    cases hdeed : last.gives? <;> simp [hdeed]
  rw [← List.append_assoc, relaying_append, State.history_append, leave_eq]
  refine .finished _ ⟨?_, ?_, ?_, relayed, ?_, ?_, fun _ k r hk => ?_⟩
  · rw [hstarts]
    exact h.called
  · exact (does.isKnown own).trans h.known
  · rw [World.gate, hrelay, State.after_append]
    exact over_of_ends hends
  · rw [output_append, output_append, h.told, houtput, List.filterMap_append, gives_relaying,
      List.map_append, List.append_assoc]
    exact congrArg (_ ++ ·) (congrArg (_ ++ ·) hlast)
  · rw [ended_append, ended_append, List.any_append, List.any_cons, isLast, Bool.true_or,
      Bool.or_true]
    have htrue : ended i [⟨w.relay.after (more.map (.emit i)), .gate input⟩] = true :=
      (ended_singleton i _).trans hends
    rw [State.history, State.history, htrue, Bool.or_true, Bool.or_true]
  · obtain rfl := h.eq_of_left does hk
    have hprogram := Executor.program?_of_left hk
    rw [stops] at hprogram
    cases hprogram

/-- In a turn of its pump the stream has brought the values `vs` and has come to a pause that is
not over, or to its next portion. -/
inductive Advances (w : World) (id : TaskId) (s : Stream) : List Value → Stream → Prop
  | waits (vs : List Value) (p : Pause) (rest : List StreamItem)
      (brings : s.items.filterMap StreamItem.brings? =
        vs.map .value ++ rest.filterMap StreamItem.brings?)
      (remains : rest <:+ s.items) (dozes : Dozes w id p) :
      Advances w id s vs { s with items := .pause p :: rest }
  | next (vs : List Value) (t : Stream)
      (brings : s.items.filterMap StreamItem.brings? = vs.map .value) (next : s.next? = some t) :
      Advances w id s vs t

def Brought (i : Nat) (id : TaskId) (s : Stream) (w : World) (deeds : List Deed) : Prop :=
  deeds.any Deed.isLast = true ∨ ∃ vs t, deeds = vs.map (.value · true) ∧
    w.executor.task? id = some (.pump i t) ∧ w.gate.isCurrent i = true ∧ Advances w id s vs t

theorem Flows.turn (h : Flows opens i w past vs id s) (uncancelled : w.gate.isCancelled i = false)
    (ordered : w.executor.Ordered none) (queued : id ∈ w.executor.ready) :
    ∃ acts, Does (some id) (update w (·.call id)) acts (runPump (update w (·.call id)) i s).1 ∧
      (∀ a ∈ acts, a.concerns i = true) ∧
      (∀ q, (runPump (update w (·.call id)) i s).2.program? = some q → ∃ t, q = .pump i t) ∧
      Stands opens i
        (Hosted.leave (runPump (update w (·.call id)) i s).1 id
          (runPump (update w (·.call id)) i s).2)
        (past ++ w.relay.history acts)
        (relaying i vs ++ pumpDeeds (update w (·.call id)) i s) ∧
      Brought i id s
        (Hosted.leave (runPump (update w (·.call id)) i s).1 id
          (runPump (update w (·.call id)) i s).2) (pumpDeeds (update w (·.call id)) i s) := by
  have hcalled : (update w (·.call id)).executor.Ordered (some id) := ordered.call queued
  have hserves : Serves (update w (·.call id)) i :=
    ⟨h.known, h.current, uncancelled⟩
  have hpumped := pumped hcalled hserves (s := s)
  generalize runPump (update w (·.call id)) i s = result at hpumped ⊢
  obtain ⟨v, rest⟩ := result
  generalize pumpDeeds (update w (·.call id)) i s = deeds at hpumped ⊢
  generalize pumpPanics (update w (·.call id)) i s = broken at hpumped
  dsimp only at hpumped ⊢
  cases hpumped with
  | waits more p q items latches deadline brings remains does serves pending =>
      have hcalm : Stream.Calm { s with items := .pause q :: items } := by
        refine h.calm.within fun r hr => ?_
        rw [List.mem_cons] at hr
        exact remains.mem (hr.resolve_left nofun)
      have hsignalled (latch : String) (hlatch : latch ∈ latches) :
          Signal.latch latch ∈ .gate (.gate (.sessionOver i)) :: latches.map Signal.latch :=
        List.mem_cons_of_mem _ (List.mem_map_of_mem hlatch)
      have hdozes : Dozes (Hosted.leave v id _) id q :=
        Dozes.suspend pending hsignalled (.pump i { s with items := .pause q :: items })
      have hpresent : (v.executor.task? id).isSome = true := by
        rw [(does.task_iff rfl).mpr h.task]
        rfl
      refine ⟨_, does, fun a ha => (concerns_emits i more a ha).1, fun q hq => ?_, ?_,
        .inr ⟨more, _, rfl, ?_, serves.current, .waits more q items brings remains hdozes⟩⟩
      · cases hq
        exact ⟨_, rfl⟩
      · exact h.goes_on does serves rfl (.within brings) hcalm (.inr ⟨q, items, rfl, hdozes⟩)
      · rw [leave_eq]
        exact Executor.task?_left hpresent _
  | advances more t brings next does serves =>
      have hpresent : (v.executor.task? id).isSome = true := by
        rw [(does.task_iff rfl).mpr h.task]
        rfl
      refine ⟨_, does, fun a ha => (concerns_emits i more a ha).1, fun q hq => ?_, ?_,
        .inr ⟨more, t, rfl, ?_, serves.current, .next more t brings next⟩⟩
      · cases hq
        exact ⟨_, rfl⟩
      · exact h.goes_on does serves rfl (.next brings next) (h.calm.next next)
          (.inl (Executor.mem_ready_requeue hpresent _))
      · rw [leave_eq]
        exact Executor.task?_left hpresent _
  | completes more brings finished does =>
      have hown := concerns_emits_last more (.complete i) (beq_self_eq_true i) nofun
      refine ⟨_, does, fun a ha => (hown a ha).1, nofun, ?_, .inl (any_isLast_concat more rfl)⟩
      exact h.ends does (fun a ha => (hown a ha).2) (fun t ht => ⟨ends_of_completed ht, rfl⟩) rfl
        rfl (h.goesOn.completed brings finished)
  | fails more e later brings does =>
      have hown := concerns_emits_last more (.fail i e) (beq_self_eq_true i) nofun
      refine ⟨_, does, fun a ha => (hown a ha).1, nofun, ?_, .inl (any_isLast_concat more rfl)⟩
      exact h.ends does (fun a ha => (hown a ha).2)
        (fun t ht => ⟨ends_of_failed ht, gives?_of_failed ht⟩) rfl rfl (h.goesOn.failed brings)
  | panics more p mem => exact absurd mem (h.calm.not_mem p)

end Turn

/-! ## A pump that comes late -/

section Late

variable {i : Nat} {turn : Option TaskId} {w : World}

theorem does_items (ordered : w.executor.Ordered turn) (known : w.gate.isKnown i = true)
    (items : List StreamItem) :
    ∃ acts, Does turn w acts (runScript (pumpItem i) w items).1 ∧
      ∀ a ∈ acts, a.concerns i = true ∧ a ≠ .gate (.activate i) := by
  induction items generalizing w with
  | nil => exact ⟨[], .refl ordered, List.forall_mem_nil _⟩
  | cons item rest ih =>
      cases item with
      | pause p =>
          cases hpoll : p.poll w.executor.now w.opened with
          | none =>
              simp only [runScript, pumpItem, Pause.react, hpoll]
              exact ih ordered known
          | some wait =>
              simp only [runScript, pumpItem, Pause.react, hpoll]
              exact ⟨[], .refl ordered, List.forall_mem_nil _⟩
      | value x =>
          have hfirst := Does.emit ordered known x
          have hown : ∀ a ∈ [Relay.Act.emit i x], a.concerns i = true ∧ a ≠ .gate (.activate i) :=
            concerns_emits i [x]
          simp only [runScript, pumpItem]
          generalize Hosting.emit w i x = result at hfirst
          obtain ⟨v, emitted | _⟩ := result
          · exact ⟨_, hfirst, hown⟩
          · have hknown : v.gate.isKnown i = true :=
              (hfirst.isKnown fun a ha => (hown a ha).2).trans known
            obtain ⟨more, hdoes, hmore⟩ := ih hfirst.ordered hknown
            exact ⟨_, hfirst.trans hdoes,
              fun a ha => (List.mem_append.mp ha).elim (hown a) (hmore a)⟩
      | failure e =>
          exact ⟨_, Does.fail ordered known e, concerns_emits_last [] (.fail i e)
            (beq_self_eq_true i) (by simp)⟩
      | panic p => exact ⟨[], .refl ordered, List.forall_mem_nil _⟩

theorem pull_does (ordered : w.executor.Ordered turn) (known : w.gate.isKnown i = true)
    (s : Stream) :
    ∃ acts, Does turn w acts (pull w i s).1 ∧
      ∀ a ∈ acts, a.concerns i = true ∧ a ≠ .gate (.activate i) := by
  obtain ⟨acts, hdoes, hown⟩ := does_items ordered known s.items
  rw [pull]
  generalize runScript (pumpItem i) w s.items = result at hdoes
  obtain ⟨v, course⟩ := result
  cases course with
  | completed =>
      cases hnext : s.next? with
      | some rest => exact ⟨acts, hdoes, hown⟩
      | none =>
          have hknown : v.gate.isKnown i = true :=
            (hdoes.isKnown fun a ha => (hown a ha).2).trans known
          have hlast := concerns_emits_last [] (.complete i) (beq_self_eq_true i) (by simp)
          exact ⟨_, hdoes.trans (.complete hdoes.ordered hknown),
            fun a ha => (List.mem_append.mp ha).elim (hown a) (hlast a)⟩
  | suspended items signals deadline =>
      have hsame : (waitInSession v i (.pump i { s with items }) signals deadline).1 = v := by
        rw [waitInSession]
        split <;> rfl
      refine ⟨acts, ?_, hown⟩
      rwa [hsame]
  | gaveWay | finished => exact ⟨acts, hdoes, hown⟩

end Late

end Lifecycle.Relay.Scenario
