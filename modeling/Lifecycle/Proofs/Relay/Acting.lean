import Lifecycle.Proofs.Relay.Leases

/-!
# Users and readers of a relay that pumps streams

Whatever users and readers do, all that holds of the world of such a relay goes on to hold, its
sessions are left alone, and its gate is asked for nothing but what they may ask for.
-/

namespace Lifecycle.Gate.Hosting

variable {W σ τ γ κ η : Type} [Hosting W σ τ γ κ η] {v w : W} {id : TaskId}

theorem Frame.others (h : Frame (some id) w v) (before : job? w id = none)
    (after : job? v id = none) : Frame none w v := by
  have hne {other : TaskId} (present : (job? w other).isSome = true) : some id ≠ some other := by
    rintro ⟨⟩
    rw [before] at present
    cases present
  refine ⟨h.state, h.timer, h.now, h.numbered, fun other _ => ?_,
    fun other _ present => h.running other (hne present) present,
    fun other _ present => h.ready other (hne present) present,
    fun other a _ present => h.waits other a (hne present) present,
    fun other deadline _ present => h.timers other deadline (hne present) present⟩
  by_cases hother : id = other
  · rw [← hother, before, after]
  · exact h.job other fun heq => hother (Option.some.inj heq)

end Lifecycle.Gate.Hosting

namespace Lifecycle.Relay.Scenario

open HasExecutor
open Gate.Hosting (Frame Conduct job?)

/-- The task is one of the gate outside its hooks, a pump or a reader. -/
def Task.isPlain : Task → Bool
  | .gate t => !Gate.Hosting.Task.inHook t
  | .pump _ _ | .reader _ => true
  | .watch _ _ | .work _ _ => false

theorem Task.isPlain_of_errand {p : Task} (errand : p.isErrand = true) : p.isPlain = true := by
  cases p with
  | gate t => exact errand
  | _ => cases errand

/-- What holds of the world of a relay that pumps streams, in the turn of `turn` or between two
turns, when users have the consumers `hand` in hand. -/
structure Upheld (opens : Nat → Stream) (turn : Option TaskId) (hand : List Consumer) (w : World)
    (past : List Moment) : Prop where
  attended : Attended w.relay past
  ordered : w.executor.Ordered turn
  spared : w.executor.doomed = []
  feed : w.feed = .flowing opens
  emitters : w.emitters = []
  plain : ∀ id p, w.executor.task? id = some p → p.isPlain = true
  handles : w.gate.dropped = true → w.hasHandle = false
  leased : Leased hand w

/-- The relay acts in this way, all goes on to hold, and the sessions but `skip` are left alone. -/
structure Passes (opens : Nat → Stream) (skip : Option Nat) (turn : Option TaskId)
    (hand : List Consumer) (w : World) (past : List Moment) (acts : List Relay.Act) (v : World) :
    Prop where
  upheld : Upheld opens turn hand v (past ++ w.relay.history acts)
  undisturbed : Undisturbed skip w acts v

structure Stays (opens : Nat → Stream) (skip : Option Nat) (turn : Option TaskId)
    (hand : List Consumer) (w : World) (past : List Moment) (acts : List Relay.Act) (v : World) :
    Prop extends Passes opens skip turn hand w past acts v where
  tasks : ∀ id p, w.executor.task? id = some p → v.executor.task? id = some p

structure Leads (opens : Nat → Stream) (skip : Option Nat) (turn : Option TaskId)
    (hand : List Consumer) (w : World) (past : List Moment) (acts : List Relay.Act) (v : World) :
    Prop extends Stays opens skip turn hand w past acts v where
  conduct : ∃ asks, Conduct w asks v

section Leads

variable {opens : Nat → Stream} {skip : Option Nat} {turn later : Option TaskId} {id : TaskId}
  {hand next : List Consumer} {u v w : World} {past : List Moment} {acts more : List Relay.Act}
  {c : Consumer} {name : String} {p : Task}

theorem Passes.trans (h₁ : Passes opens skip turn hand w past acts v)
    (h₂ : Passes opens skip later next v (past ++ w.relay.history acts) more u) :
    Passes opens skip later next w past (acts ++ more) u where
  upheld := by
    rw [State.history_append, ← h₁.undisturbed.relay, ← List.append_assoc]
    exact h₂.upheld
  undisturbed := h₁.undisturbed.trans h₂.undisturbed

theorem Stays.trans (h₁ : Stays opens skip turn hand w past acts v)
    (h₂ : Stays opens skip later next v (past ++ w.relay.history acts) more u) :
    Stays opens skip later next w past (acts ++ more) u where
  toPasses := h₁.toPasses.trans h₂.toPasses
  tasks id p task := h₂.tasks id p (h₁.tasks id p task)

theorem Leads.trans (h₁ : Leads opens skip turn hand w past acts v)
    (h₂ : Leads opens skip later next v (past ++ w.relay.history acts) more u) :
    Leads opens skip later next w past (acts ++ more) u where
  toStays := h₁.toStays.trans h₂.toStays
  conduct := by
    obtain ⟨asks, hfirst⟩ := h₁.conduct
    obtain ⟨rest, hsecond⟩ := h₂.conduct
    exact ⟨_, conduct_trans hfirst hsecond⟩

theorem Stays.idle (h : Stays opens skip turn hand w past acts v)
    (ordered : w.executor.Ordered turn) (idle : Idle skip w) : Idle skip v :=
  h.undisturbed.idle (h.upheld.ordered.turn.trans ordered.turn.symm) idle

namespace Upheld

theorem idle (h : Upheld opens none hand w past) : Idle skip w := idle_of_none h.ordered

theorem moved (h : Upheld opens turn hand w past) (traces : Traces turn w acts v)
    (handles : v.gate.dropped = true → w.hasHandle = false) (idle : Idle skip w)
    (apart : ∀ i, skip ≠ some i → ∀ a ∈ acts, a.concerns i = false) (leased : Leased next v) :
    Stays opens skip turn next w past acts v where
  upheld :=
    { attended := by
        rw [traces.relay]
        exact h.attended.after traces.orderly
      ordered := traces.ordered
      spared := traces.spares.doomed.trans h.spared
      feed := traces.feed.trans h.feed
      emitters := traces.emitters.trans h.emitters
      plain := fun id p task => by
        rcases traces.fresh id p task with present | errand
        · exact h.plain id p ((traces.spares.task id present).symm.trans task)
        · exact Task.isPlain_of_errand errand
      handles := fun dropped => traces.hasHandle.trans (handles dropped)
      leased := leased }
  undisturbed := .of_traces h.ordered idle traces apart
  tasks := traces.tasks

theorem traces (h : Upheld opens turn hand w past) (traces : Traces turn w acts v)
    (nobody : ∀ a ∈ acts, a ≠ .attach) (kept : ∀ a ∈ acts, a ≠ .gate .drop) (idle : Idle skip w)
    (apart : ∀ i, skip ≠ some i → ∀ a ∈ acts, a.concerns i = false) :
    Stays opens skip turn hand w past acts v := by
  refine h.moved traces (fun dropped => ?_) idle apart (h.leased.traces traces nobody)
  rw [World.gate, traces.relay, dropped_after kept] at dropped
  exact h.handles dropped

theorem does (h : Upheld opens turn hand w past) (does : Does turn w acts v)
    (nobody : ∀ a ∈ acts, a ≠ .attach) (kept : ∀ a ∈ acts, a ≠ .gate .drop) (idle : Idle skip w)
    (apart : ∀ i, skip ≠ some i → ∀ a ∈ acts, a.concerns i = false) :
    Leads opens skip turn hand w past acts v :=
  ⟨h.traces does.toTraces nobody kept idle apart, does.conduct⟩

theorem still (h : Upheld opens turn hand w past) (idle : Idle skip w)
    (executor : v.executor = w.executor) (relay : v.relay = w.relay) (feed : v.feed = w.feed)
    (emitters : v.emitters = w.emitters)
    (starts : ∀ i, skip ≠ some i → (i < v.starts ↔ i < w.starts)) (opened : v.opened = w.opened)
    (handles : v.hasHandle = true → w.hasHandle = true) (leased : Leased next v) :
    Stays opens skip turn next w past [] v where
  upheld :=
    { attended := by
        rw [State.history, List.append_nil, relay]
        exact h.attended
      ordered := by
        rw [executor]
        exact h.ordered
      spared := by
        rw [executor]
        exact h.spared
      feed := feed.trans h.feed
      emitters := emitters.trans h.emitters
      plain := by
        rw [executor]
        exact h.plain
      handles := fun dropped => by
        rw [World.gate, relay] at dropped
        exact Bool.eq_false_iff.mpr (mt handles (Bool.eq_false_iff.mp (h.handles dropped)))
      leased := leased }
  undisturbed := .of_same idle executor relay starts opened
  tasks id p task := by rwa [executor]

theorem aside (h : Upheld opens turn hand w past) (idle : Idle skip w)
    (executor : v.executor = w.executor) (relay : v.relay = w.relay) (timer : v.timer = w.timer)
    (feed : v.feed = w.feed) (emitters : v.emitters = w.emitters) (starts : v.starts = w.starts)
    (opened : v.opened = w.opened) (handles : v.hasHandle = true → w.hasHandle = true)
    (leased : Leased next v) : Leads opens skip turn next w past [] v where
  toStays := h.still idle executor relay feed emitters (fun _ _ => by rw [starts]) opened handles
    leased
  conduct := ⟨[], .of_frame (Gate.Hosting.frame_of_eq executor (congrArg State.gate relay) timer)⟩

theorem refl (h : Upheld opens turn hand w past) (idle : Idle skip w) :
    Leads opens skip turn hand w past [] w :=
  h.aside idle rfl rfl rfl rfl rfl rfl rfl (fun held => held) h.leased

theorem note (h : Upheld opens turn hand w past) (idle : Idle skip w) (n : Note) :
    Leads opens skip turn hand w past [] (w.note n) :=
  h.aside idle rfl rfl rfl rfl rfl rfl rfl (fun held => held)
    (h.leased.same rfl rfl fun _ _ => Iff.rfl)

end Upheld

end Leads

/-! ## Reading -/

section Reading

variable {opens : Nat → Stream} {skip : Option Nat} {turn : Option TaskId} {id : TaskId}
  {hand : List Consumer} {v w : World} {past : List Moment} {acts : List Relay.Act}
  {c : Consumer}

def isReading : Relay.Act → Bool
  | .take _ | .takeAll _ | .abandon _ | .gate (.release _) => true
  | _ => false

theorem concerns_of_isReading {a : Relay.Act} (reading : isReading a = true) (i : Nat) :
    a.concerns i = false := by
  cases a with
  | gate input => cases input <;> first | rfl | cases reading
  | emit => cases reading
  | _ => rfl

theorem Upheld.reads (h : Upheld opens turn hand w past) (does : Does turn w acts v)
    (reading : ∀ a ∈ acts, isReading a = true) (idle : Idle skip w) :
    Leads opens skip turn hand w past acts v := by
  refine h.does does (fun a ha => ?_) (fun a ha => ?_) idle
    fun i _ a ha => concerns_of_isReading (reading a ha) i
  · rintro rfl
    cases reading _ ha
  · rintro rfl
    cases reading _ ha

theorem Upheld.take (h : Upheld opens turn hand w past) (idle : Idle skip w) (c : Consumer) :
    Leads opens skip turn hand w past [.take c.inbox] (Hosting.take w c).1 :=
  h.reads (.take h.ordered c) (by simp [isReading]) idle

theorem Upheld.takeAll (h : Upheld opens turn hand w past) (idle : Idle skip w) (c : Consumer) :
    Leads opens skip turn hand w past [.takeAll c.inbox] (Hosting.takeAll w c).1 :=
  h.reads (.takeAll h.ordered c) (by simp [isReading]) idle

theorem Upheld.abandon (h : Upheld opens turn hand w past) (idle : Idle skip w)
    (hc : c.id = c.inbox + 1) :
    Leads opens skip turn hand w past [.abandon c.inbox, .gate (.release c.id)]
      (Hosting.abandon w c) := by
  refine h.reads (.abandon h.ordered fun k found => ?_) (by simp [isReading]) idle
  have hmem : (c.id, k) ∈ w.relay.gate.roster.entries := by
    obtain ⟨_, _, hsplit, _⟩ := List.lookup_eq_some_iff.mp found
    rw [hsplit]
    exact List.mem_append_right _ List.mem_cons_self
  have hid := h.attended.ids _ hmem
  exact Nat.succ.inj (hid.symm.trans hc)

def Reads (r : Reader) (v : World) (rest : Rest Signal Task) : Prop :=
  rest.program?.elim (r.consumer.inbox ∉ v.gate.roster.members) fun q =>
    ∃ s, q = .reader s ∧ s.consumer = r.consumer

theorem Upheld.readerLeaves (h : Upheld opens turn hand w past) (idle : Idle skip w) (r : Reader)
    (hc : r.consumer.id = r.consumer.inbox + 1) :
    ∃ acts, Leads opens skip turn hand w past acts (runReader.leave w r) ∧
      Reads r (runReader.leave w r) .ended := by
  have hgone := h.abandon idle hc
  have hleft := hgone.trans (hgone.upheld.note (hgone.idle h.ordered idle) (.left r.name))
  exact ⟨_, hleft, not_mem_abandon h.attended.toPaired hc⟩

theorem Upheld.runReader (h : Upheld opens turn hand w past) (idle : Idle skip w) (fuel : Nat)
    (r : Reader) (hc : r.consumer.id = r.consumer.inbox + 1) :
    ∃ acts, Leads opens skip turn hand w past acts (runReader fuel w r).1 ∧
      Reads r (Scenario.runReader fuel w r).1 (Scenario.runReader fuel w r).2 := by
  -- A step that takes something leads to an upheld world, in which the reader goes on or stops.
  have htake {w v : World} {past : List Moment} {taken : Inbox.Taken} {c : Consumer}
      (h : Upheld opens turn hand w past) (idle : Idle skip w)
      (took : Hosting.take w c = (v, taken)) :
      Leads opens skip turn hand w past [.take c.inbox] v := by
    have hled := h.take idle c
    rwa [took] at hled
  fun_induction Scenario.runReader fuel w r generalizing past with
  | case1 fuel w r => exact h.readerLeaves idle r hc
  | case2 fuel w r _ v took =>
      have hfirst := htake h idle took
      obtain ⟨acts, hlast, hreads⟩ :=
        hfirst.upheld.readerLeaves (hfirst.idle h.ordered idle) r hc
      exact ⟨_, hfirst.trans hlast, hreads⟩
  | case3 fuel w r _ v took => exact ⟨_, htake h idle took, r, rfl, rfl⟩
  | case4 w r _ v item took got next =>
      have hfirst := htake h idle took
      have hgot := hfirst.upheld.note (hfirst.idle h.ordered idle) (.got r.name item)
      exact ⟨_, hfirst.trans hgot, next, rfl, rfl⟩
  | case5 w r _ v item took got next _ fuel =>
      rename_i ih
      have hfirst := htake h idle took
      have hgot := hfirst.trans
        (hfirst.upheld.note (hfirst.idle h.ordered idle) (.got r.name item))
      obtain ⟨acts, hlast, hreads⟩ := ih hgot.upheld (hgot.idle h.ordered idle) hc
      exact ⟨_, hgot.trans hlast, hreads⟩
  | case6 fuel w r _ v item took got next _ =>
      have hfirst := htake h idle took
      have hgot := hfirst.upheld.note (hfirst.idle h.ordered idle) (.got r.name item)
      exact ⟨_, hfirst.trans hgot, _, rfl, rfl⟩

end Reading

/-! ## Users -/

section Users

variable {opens : Nat → Stream} {skip : Option Nat} {turn : Option TaskId} {id : TaskId}
  {hand next : List Consumer} {v w : World} {past : List Moment} {acts : List Relay.Act}
  {c : Consumer} {name : String} {p : Task}

theorem consumers_abandon (ordered : w.executor.Ordered turn)
    (c : Consumer) : (Hosting.abandon w c).consumers = w.consumers :=
  (Beside.input (w := { w with relay := w.relay.act (.abandon c.inbox) }) ordered _).consumers

namespace Upheld

theorem attach (h : Upheld opens turn hand w past) (idle : Idle skip w)
    (held : w.hasHandle = true) :
    Leads opens skip turn ((Hosting.attach w).2 :: hand) w past [.attach]
      (Hosting.attach w).1 := by
  have hpresent : w.relay.gate.dropped = false := by
    refine Bool.eq_false_iff.mpr fun hdropped => ?_
    rw [h.handles hdropped] at held
    cases held
  have hdoes := Does.attach h.ordered hpresent
  refine ⟨h.moved hdoes.toTraces (fun dropped => h.handles ?_) idle
    (by simp [Relay.Act.concerns]) ?_, hdoes.conduct⟩
  · rw [World.gate, hdoes.relay, dropped_after (by simp)] at dropped
    exact dropped
  · exact h.leased.attach h.attended.toPaired hdoes.toTraces

theorem forget (h : Upheld opens turn hand w past) (idle : Idle skip w)
    (found : w.consumers.lookup name = some c) :
    Leads opens skip turn (c :: hand) w past [] (w.forgetConsumer name) :=
  h.aside idle rfl rfl rfl rfl rfl rfl rfl (fun held => held) (h.leased.forget found)

theorem dismiss (h : Upheld opens turn (c :: hand) w past) (idle : Idle skip w) :
    Leads opens skip turn hand w past [.abandon c.inbox, .gate (.release c.id)]
      (Hosting.abandon w c) := by
  have hc := h.leased.paired c (.inl List.mem_cons_self)
  have hgone := h.abandon idle hc
  have hleased := hgone.upheld.leased.letGo (not_mem_abandon h.attended.toPaired hc)
  exact ⟨⟨⟨{ hgone.upheld with leased := hleased }, hgone.undisturbed⟩, hgone.tasks⟩,
    hgone.conduct⟩

theorem keep (h : Upheld opens turn (c :: hand) w past) (idle : Idle skip w)
    (new : name ∉ w.consumers.map Prod.fst) :
    Leads opens skip turn hand w past []
      { w with consumers := w.consumers ++ [(name, c)] } :=
  h.aside idle rfl rfl rfl rfl rfl rfl rfl (fun held => held) (h.leased.keep new)

theorem attachStep (h : Upheld opens none [] w past) (held : w.hasHandle = true) (name : String) :
    ∃ later, Leads opens none none [] w past (.attach :: later) (w.attach name).1 := by
  have hcame := h.attach (h.idle : Idle none w) held
  have hidle := hcame.idle h.ordered h.idle
  simp only [World.attach, held, if_true]
  generalize hresult : Hosting.attach w = result at hcame hidle ⊢
  obtain ⟨a, c⟩ := result
  dsimp only at hcame hidle ⊢
  cases hfound : a.consumers.lookup name with
  | none =>
      have hnew : name ∉ a.consumers.map Prod.fst := by
        intro hmem
        obtain ⟨e, he, rfl⟩ := List.mem_map.mp hmem
        simpa using List.lookup_eq_none_iff.mp hfound e he
      exact ⟨[], hcame.trans (hcame.upheld.keep hidle hnew)⟩
  | some old =>
      have hforgot := hcame.upheld.forget hidle hfound
      have hgone := hforgot.upheld.dismiss (hforgot.idle hcame.upheld.ordered hidle)
      have hdone := hcame.trans (hforgot.trans hgone)
      have hnew : name ∉
          (Hosting.abandon (a.forgetConsumer name) old).consumers.map Prod.fst := by
        rw [consumers_abandon hforgot.upheld.ordered]
        simp [World.forgetConsumer]
      exact ⟨_, hdone.trans (hdone.upheld.keep (hdone.idle h.ordered h.idle) hnew)⟩

theorem spawn (h : Upheld opens turn hand w past) (idle : Idle skip w) (plain : p.isPlain = true)
    (other : World.ofTask? p = none) (own : ∀ i s, p = .pump i s → skip = some i)
    (leased : Leased next (HasExecutor.spawn w p)) :
    Leads opens skip turn next w past [] (HasExecutor.spawn w p) where
  upheld :=
    { attended := by
        rw [State.history, List.append_nil]
        exact h.attended
      ordered := h.ordered.spawn p
      spared := h.spared
      feed := h.feed
      emitters := h.emitters
      plain := fun id q task => by
        rcases Executor.task?_of_spawn h.ordered.toNumbered task with ⟨_, rfl⟩ | hold
        · exact plain
        · exact h.plain id q hold
      handles := h.handles
      leased := leased }
  undisturbed := .spawn h.ordered idle own
  conduct := by
    have hframe := Gate.Hosting.frame_spawn w p
    refine ⟨[], .of_frame (hframe.others ?_ ?_)⟩
    · rw [job?, show (executor w).task? (executor w).nextTask = none from
        h.ordered.toNumbered.fresh]
      rfl
    · rw [job?, show (executor (HasExecutor.spawn w p)).task? (executor w).nextTask = some p from
        Executor.task?_spawn h.ordered.toNumbered p]
      exact other
  tasks id q task := by
    have hpresent : (w.executor.task? id).isSome = true := by rw [task]; rfl
    exact ((Executor.spares_spawn h.ordered p).task id hpresent).trans task

theorem release (h : Upheld opens none hand w past) (latch : String) :
    Leads opens skip none hand w past []
      (HasExecutor.signal { w with opened := latch :: w.opened } (.latch latch)) := by
  have htask (id : TaskId) : (w.executor.signal (.latch latch)).task? id = w.executor.task? id :=
    (w.executor.keeps_signal _).task id nofun
  refine ⟨⟨⟨{ attended := ?_, ordered := h.ordered.signal _,
              spared := (Executor.spares_signal h.ordered (.latch latch)).doomed.trans h.spared,
              feed := h.feed, emitters := h.emitters, plain := fun id p task => ?_,
              handles := h.handles, leased := ?_ }, .release h.ordered latch⟩,
    fun id p task => (htask id).trans task⟩, [], .of_frame ?_⟩
  · rw [State.history, List.append_nil]
    exact h.attended
  · exact h.plain id p ((htask id).symm.trans task)
  · refine h.leased.same rfl rfl fun id r => ?_
    rw [← htask id]
    rfl
  · exact Gate.Hosting.frame_of_keeps (w.executor.keeps_signal (.latch latch)) rfl rfl

theorem readerStep (h : Upheld opens none [] w past) {r : Reader}
    (found : w.consumers.lookup name = some r.consumer) :
    ∃ acts, Leads opens none none [] w past acts
      (HasExecutor.spawn (w.forgetConsumer name) (.reader r)) := by
  have hforgot := h.forget (h.idle : Idle none w) found
  have hlent := hforgot.upheld.spawn (p := .reader r) (hforgot.idle h.ordered h.idle) rfl rfl
    (fun i s => nofun) (hforgot.upheld.leased.lend h.ordered.toNumbered)
  exact ⟨_, hforgot.trans hlent⟩

theorem step (h : Upheld opens none [] w past) {s : Step} (admitted : w.admits (.step s) = true) :
    ∃ acts, Leads opens none none [] w past acts (w.take s).1 := by
  have hidle : Idle none w := h.idle
  have hsession (call : Option Nat) (f : Nat → World × Answer) :
      w.withSession call f = (w, .noSession) := by
    simp only [World.withSession, h.emitters]
    cases call <;> rfl
  have hconsumer (name : String) {f : Consumer → World × Answer}
      (each : ∀ c, ∃ acts, Leads opens none none [] w past acts (f c).1) :
      ∃ acts, Leads opens none none [] w past acts (w.withConsumer name f).1 := by
    simp only [World.withConsumer]
    cases w.consumers.lookup name with
    | none => exact ⟨_, h.refl hidle⟩
    | some c => exact each c
  cases s with
  | attach name =>
      cases hheld : w.hasHandle with
      | true =>
          obtain ⟨later, hled⟩ := h.attachStep hheld name
          exact ⟨_, hled⟩
      | false =>
          simp only [World.take, World.attach, hheld]
          exact ⟨_, h.refl hidle⟩
  | detach name =>
      simp only [World.take]
      cases hfound : w.consumers.lookup name with
      | none => exact ⟨_, h.refl hidle⟩
      | some c =>
          have hforgot := h.forget hidle hfound
          have hgone := hforgot.upheld.dismiss (hforgot.idle h.ordered hidle)
          exact ⟨_, hforgot.trans hgone⟩
  | tryTake name =>
      refine hconsumer name fun c => ⟨[.take c.inbox], ?_⟩
      have htook := h.take hidle c
      generalize Hosting.take w c = result at htook ⊢
      obtain ⟨v, taken⟩ := result
      cases taken <;> exact htook
  | read name => exact hconsumer name fun c => ⟨_, h.takeAll hidle c⟩
  | poll name => exact hconsumer name fun c => ⟨_, h.take hidle c⟩
  | reader name remaining every =>
      simp only [World.take, World.withConsumer]
      cases hfound : w.consumers.lookup name with
      | none => exact ⟨_, h.refl hidle⟩
      | some c => exact h.readerStep hfound
  | emit v call =>
      simp only [World.take, hsession]
      exact ⟨_, h.refl hidle⟩
  | complete call =>
      simp only [World.take, hsession]
      exact ⟨_, h.refl hidle⟩
  | fail e call =>
      simp only [World.take, hsession]
      exact ⟨_, h.refl hidle⟩
  | watch name call =>
      simp only [World.take, hsession]
      exact ⟨_, h.refl hidle⟩
  | emitter call =>
      simp only [World.take, hsession]
      exact ⟨_, h.refl hidle⟩
  | debug => exact ⟨_, h.refl hidle⟩
  | clone =>
      have hhandles (held : World.hasHandle { w with clones := if w.hasHandle then w.clones + 1
          else w.clones } = true) : w.hasHandle = true := by
        cases hheld : w.hasHandle with
        | true => rfl
        | false =>
            rw [hheld] at held
            exact absurd (hheld.symm.trans held) Bool.noConfusion
      exact ⟨_, h.aside hidle rfl rfl rfl rfl rfl rfl rfl hhandles
        (h.leased.same rfl rfl fun _ _ => Iff.rfl)⟩
  | dropClone =>
      have hhandles (held : World.hasHandle { w with clones := w.clones - 1 } = true) :
          w.hasHandle = true := by
        simp only [World.hasHandle, Bool.or_eq_true, bne_iff_ne] at held ⊢
        exact held.imp_right fun hne heq => hne (by rw [heq])
      exact ⟨_, h.aside hidle rfl rfl rfl rfl rfl rfl rfl hhandles
        (h.leased.same rfl rfl fun _ _ => Iff.rfl)⟩
  | dropRelay =>
      have hhandles (held : World.hasHandle { w with owned := false } = true) :
          w.hasHandle = true := by
        simp only [World.hasHandle, Bool.false_or] at held
        simp only [World.hasHandle, held, Bool.or_true]
      exact ⟨_, h.aside hidle rfl rfl rfl rfl rfl rfl rfl hhandles
        (h.leased.same rfl rfl fun _ _ => Iff.rfl)⟩
  | advance ms => cases admitted
  | settle => cases admitted
  | release latch => exact ⟨_, h.release latch⟩

end Upheld

end Users

end Lifecycle.Relay.Scenario
