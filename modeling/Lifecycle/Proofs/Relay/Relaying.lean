import Lifecycle.Proofs.Relay.Opening

/-!
# A relay passes on its streams

Whatever users do, in whatever order the tasks have their turns and however the clock moves, each
session opens a stream of its own, once, and passes it on up to the first failure or to the end, or
as far as it comes before it is torn down.  What its pump still pulls after that is not passed on.
-/

namespace Lifecycle.Relay.Scenario

open HasExecutor
open Gate.Hosting (Steady Stalled)

/-! ## The beginning -/

section Start

variable {opens : Nat → Stream} {setup : Setup}

theorem ordered_start (setup : Setup) : setup.world.executor.Ordered none :=
  ⟨⟨nofun, nofun⟩, nofun, rfl⟩

theorem not_held_start (setup : Setup) (c : Consumer) : ¬Held [] setup.world c := by
  rintro (hhand | ⟨name, hnamed⟩ | ⟨id, r, task, _⟩)
  · cases hhand
  · cases hnamed
  · cases task

theorem fresh_start (setup : Setup) : Gate.Hosting.Fresh setup.settings setup.world where
  state := rfl
  timer := ⟨rfl, rfl, rfl⟩
  numbered := ⟨nofun, nofun⟩
  jobs _ := rfl

theorem afloat_start (flowing : setup.feed = .flowing opens) :
    Afloat opens setup.settings setup.world [] [] where
  relay := rfl
  orderly := rfl
  civil := rfl
  upheld :=
    { attended := attended_fresh setup.settings
      ordered := ordered_start setup
      spared := rfl
      feed := flowing
      emitters := rfl
      plain := nofun
      handles := nofun
      leased := ⟨fun c held => absurd held (not_held_start setup c), nofun, .nil⟩ }
  steady := ⟨_, (fresh_start setup).steady⟩
  stands i := .unopened ⟨Nat.zero_le i, rfl, nofun, rfl, rfl⟩

end Start

/-! ## Whole runs -/

section Run

variable {opens : Nat → Stream} {settings : RelaySettings} {id : TaskId} {w : World}
  {acts : List Relay.Act} {log : Log} {a : Act} {later : List Act} {i : Nat}

theorem entries_turn (h : Afloat opens settings w acts log) {p : Task}
    (task : w.executor.task? id = some p) :
    w.entries (.turn id) = (update w (·.call id)).record p := by
  simp only [World.entries, h.upheld.spared, task]
  rfl

theorem Afloat.turn (h : Afloat opens settings w acts log) (calm : ∀ call, (opens call).Calm)
    (queued : id ∈ w.executor.ready) :
    (∃ more, Afloat opens settings (Hosted.runTurn w id) (acts ++ more)
      (log ++ w.entries (.turn id))) ∧
    ∀ i, w.gate.isCurrent i = false → deedsOf i (w.entries (.turn id)) = [] := by
  obtain ⟨p, task⟩ := Option.isSome_iff_exists.mp (h.upheld.ordered.queued id queued)
  have hplain := h.upheld.plain id p task
  rw [entries_turn h task]
  cases p with
  | gate t => exact h.turnGate calm queued task
  | watch name i => cases hplain
  | work i items => cases hplain
  | pump i s =>
      obtain ⟨hnext, hnone, _⟩ := h.turnPump queued task
      refine ⟨hnext, fun j finished => ?_⟩
      by_cases hj : i = j
      · subst hj
        rw [World.record, hnone finished]
        rfl
      · exact deedsOf_other hj _
  | reader r =>
      obtain ⟨more, hnext⟩ := h.turnReader queued task
      have hlog : log ++ (update w (·.call id)).record (.reader r) = log := List.append_nil log
      rw [hlog]
      exact ⟨⟨more, hnext⟩, fun _ _ => rfl⟩

theorem Afloat.brought (h : Afloat opens settings w acts log) (queued : id ∈ w.executor.ready)
    {s : Stream} (task : w.executor.task? id = some (.pump i s))
    (current : w.gate.isCurrent i = true) :
    Brought i id s (w.perform (.turn id)) (deedsOf i (w.entries (.turn id))) := by
  rw [entries_turn h task, World.record, deedsOf_own]
  exact (h.turnPump queued task).2.2 current

/-- What one act preserves.  Sessions that are over have no part in it. -/
theorem Afloat.perform (h : Afloat opens settings w acts log)
    (calm : ∀ call, (opens call).Calm) (admitted : w.admits a = true) :
    (∃ more, Afloat opens settings (w.perform a) (acts ++ more) (log ++ w.entries a)) ∧
    ∀ i, w.gate.isCurrent i = false → deedsOf i (w.entries a) = [] := by
  cases a with
  | step s =>
      obtain ⟨more, hleads⟩ := h.upheld.step admitted
      obtain ⟨last, hnext⟩ := h.leads hleads
      have hlog : log ++ w.entries (.step s) = log := List.append_nil log
      rw [hlog]
      exact ⟨⟨_, hnext⟩, fun _ _ => rfl⟩
  | turn id => exact h.turn calm (List.contains_iff_mem.mp admitted)
  | late id =>
      obtain ⟨queued, i, s, task, cancelled⟩ := World.admits_late admitted
      obtain ⟨more, hnext⟩ := h.latePump queued task cancelled
      have hlog : log ++ w.entries (.late id) = log := List.append_nil log
      rw [hlog, World.perform, task]
      exact ⟨⟨more, hnext⟩, fun _ _ => rfl⟩
  | clock target =>
      simp only [World.admits, Bool.and_eq_true, List.isEmpty_iff, decide_eq_true_eq,
        List.all_eq_true] at admitted
      have hnext := h.clock admitted.1.1 admitted.1.2 admitted.2
      have hlog : log ++ w.entries (.clock target) = log := List.append_nil log
      rw [hlog]
      exact ⟨⟨[], by rwa [List.append_nil]⟩, fun _ _ => rfl⟩

theorem Afloat.after (h : Afloat opens settings w acts log) (calm : ∀ call, (opens call).Calm)
    (orderly : w.orderly later = true) :
    ∃ more, Afloat opens settings (w.after later) (acts ++ more) (log ++ w.log later) := by
  induction later generalizing w acts log with
  | nil =>
      refine ⟨[], ?_⟩
      rwa [List.append_nil, World.log, List.append_nil]
  | cons a rest ih =>
      rw [World.orderly_cons] at orderly
      obtain ⟨⟨more, hnext⟩, _⟩ := h.perform calm orderly.1
      obtain ⟨last, hlast⟩ := ih hnext orderly.2
      refine ⟨more ++ last, ?_⟩
      rwa [← List.append_assoc, World.log, ← List.append_assoc]

theorem Afloat.deeds_of_over (h : Afloat opens settings w acts log)
    (calm : ∀ call, (opens call).Calm) (orderly : w.orderly later = true)
    (begun : i < w.gate.sessions.length) (finished : w.gate.isCurrent i = false) :
    deedsOf i (w.log later) = [] := by
  induction later generalizing w acts log with
  | nil => rfl
  | cons a rest ih =>
      rw [World.orderly_cons] at orderly
      obtain ⟨⟨more, hnext⟩, hnone⟩ := h.perform calm orderly.1
      have hrelay : (w.perform a).relay = w.relay.after more := by
        rw [hnext.relay, State.after_append, h.relay]
      have horderly : w.relay.orderly more = true := by
        have hall := (State.orderly_append _ _ _).mp hnext.orderly
        rw [h.relay]
        exact hall.2
      rw [World.log, deedsOf_append, hnone i finished]
      refine ih hnext orderly.2 ?_ ?_
      · rw [World.gate, hrelay]
        exact Nat.lt_of_lt_of_le begun (sessions_le_after w.relay more)
      · rw [World.gate, hrelay]
        exact h.upheld.attended.over_after horderly begun finished

theorem Afloat.called (h : Afloat opens settings w acts log)
    (idle : ∀ id ∈ w.executor.ready, ∀ t, w.executor.task? id ≠ some (.gate t))
    (begun : i < w.gate.sessions.length) : i < w.starts := by
  have htask {id : TaskId} {t : Gate.Task Hook} (job : Gate.Hosting.job? w id = some t) :
      w.executor.task? id = some (.gate t) := by
    rw [job?_eq] at job
    obtain ⟨p, hp, htask⟩ := Option.bind_eq_some_iff.mp job
    cases p <;> cases htask
    exact hp
  have hstalled : Stalled w := by
    refine ⟨fun id t job ready => idle id ready t (htask job), fun id t job => ?_⟩
    have hplain := h.upheld.plain id _ (htask job)
    simpa [Task.isPlain] using hplain
  obtain ⟨since, hsteady⟩ := h.steady
  exact (h.stands i).called_iff.mpr (hsteady.isKnown hstalled begun)

end Run

/-! ## Accounts of sessions -/

/-- What has become of a session and its stream, when the past of the relay is `past`.  Whatever the
session gives to its consumers it has from its own stream; until it is over a pump goes on with the
rest, and once it has failed or completed by its stream no pump of it is left. -/
structure Account (opens : Nat → Stream) (i : Nat) (w : World) (past : List Moment)
    (deeds : List Deed) : Prop where
  known : i < w.starts ↔ w.gate.isKnown i = true
  unopened : w.starts ≤ i → deeds = []
  relayed : i < w.starts → Relayed i (opens i) deeds
  given : output i past = deeds.filterMap Deed.gives?
  ends : ended i past = deeds.any Deed.isLast
  finished : deeds.any Deed.isLast = true → w.gate.isCurrent i = false
  unmanned : deeds.any Deed.isLast = true → ∀ id s, w.executor.task? id ≠ some (.pump i s)
  pumped : i < w.starts → w.gate.isCurrent i = true → ∃ id s,
    w.executor.task? id = some (.pump i s) ∧ (opens i).GoesOn (deeds.filterMap Deed.gives?) s ∧
      Poised w id s

theorem Stands.account {opens : Nat → Stream} {i : Nat} {w : World} {past : List Moment}
    {deeds : List Deed} (h : Stands opens i w past deeds) : Account opens i w past deeds where
  known := h.called_iff
  unopened early := by
    cases h with
    | unopened => rfl
    | flows vs id s h => exact absurd h.called (Nat.not_lt_of_le early)
    | finished _ h => exact absurd h.called (Nat.not_lt_of_le early)
  relayed called := by
    cases h with
    | unopened h => exact absurd called (Nat.not_lt_of_le h.early)
    | flows vs id s h => exact h.goesOn.underway
    | finished _ h => exact h.relayed
  given := h.given
  ends := h.ends
  finished last := by
    cases h with
    | unopened => cases last
    | flows vs id s h =>
        rw [any_isLast_relaying] at last
        cases last
    | finished _ h => exact h.finished
  unmanned last := by
    cases h with
    | unopened => cases last
    | flows vs id s h =>
        rw [any_isLast_relaying] at last
        cases last
    | finished _ h => exact h.unmanned last
  pumped called current := by
    cases h with
    | unopened h => exact absurd called (Nat.not_lt_of_le h.early)
    | flows vs id s h =>
        rw [gives_relaying]
        exact ⟨id, s, h.task, h.goesOn, h.poised⟩
    | finished _ h =>
        rw [h.finished] at current
        cases current

/-! ## Consumers -/

/-- The consumer of the inbox `k` has got, unless it has gone, all that the session gives, and the
session lasts until its stream ends it. -/
structure Receives (w : World) (i k : Nat) (b : Inbox) (deeds : List Deed) : Prop where
  get : w.relay.inboxes[k]? = some b
  delivered : b.abandoned = false → b.delivered = deeds.filterMap Deed.gives?
  closed : b.abandoned = false → (b.closed = true ↔ deeds.any Deed.isLast = true)
  finished : b.abandoned = false → (w.gate.isCurrent i = false ↔ deeds.any Deed.isLast = true)

section Consumers

variable {opens : Nat → Stream} {settings : RelaySettings} {u w : World} {acts : List Relay.Act}
  {log : Log} {i k : Nat} {b : Inbox} {past : List Moment} {deeds : List Deed}
  {later : List Act} {name : String}

theorem receives_of_hears (hears : Hears w.relay i k b past) (paired : Paired w.relay)
    (stands : Stands opens i w past deeds) : Receives w i k b deeds where
  get := hears.get
  delivered read := (hears.delivered read).trans stands.given
  closed read := by
    have hplace := paired.places k
    rw [State.isOpen_of_get hears.get] at hplace
    rw [← stands.ends, ← hears.finished read]
    cases hclosed : b.closed with
    | true =>
        rw [hclosed] at hplace
        refine ⟨fun _ => Bool.eq_false_iff.mpr fun current => ?_, fun _ => rfl⟩
        cases hplace.mpr (hears.stays read current)
    | false =>
        rw [hclosed] at hplace
        have hcurrent := hears.live (hplace.mp rfl)
        rw [hcurrent]
        exact Iff.rfl.trans ⟨nofun, nofun⟩
  finished read := by
    rw [← stands.ends]
    exact hears.finished read

theorem Afloat.receives (h : Afloat opens settings u acts log) (calm : ∀ call, (opens call).Calm)
    (held : u.hasHandle = true) (joins : (Hosting.attach u).1.gate.isCurrent i = true)
    (silent : (deedsOf i log).filterMap Deed.gives? = [])
    (orderly : (u.perform (.step (.attach name))).orderly later = true) :
    ∃ b, Receives ((u.perform (.step (.attach name))).after later) i u.relay.inboxes.length b
      (deedsOf i (log ++ (u.perform (.step (.attach name))).log later)) := by
  obtain ⟨more, hleads⟩ := h.upheld.attachStep held name
  obtain ⟨last, hcame⟩ : ∃ last, Afloat opens settings (u.perform (.step (.attach name)))
      (acts ++ (.attach :: more ++ last)) log := h.leads hleads
  obtain ⟨rest, hnow⟩ := hcame.after calm orderly
  rw [List.append_assoc, List.append_assoc, List.cons_append] at hnow
  have horderly := ((State.orderly_append _ _ _).mp hnow.orderly).2
  have hcivil := ((State.civil_append _ _ _).mp hnow.civil).2
  rw [← h.relay, State.orderly_cons] at horderly
  rw [← h.relay, State.civil_cons] at hcivil
  have hcurrent : (u.relay.act .attach).gate.isCurrent i = true := by
    have hrelay : (Hosting.attach u).1.relay = u.relay.act .attach := by
      rw [attach_eq]
      exact relay_input _ _
    rwa [World.gate, hrelay] at joins
  obtain ⟨a, harrived⟩ :=
    h.upheld.attended.arrives horderly.1 hcurrent ((h.stands i).given.trans silent)
  obtain ⟨b, hhears⟩ :=
    harrived.after (h.upheld.attended.act horderly.1) horderly.2 hcivil.2
  refine ⟨b, receives_of_hears ?_ hnow.upheld.attended.toPaired (hnow.stands i)⟩
  rw [hnow.relay, State.after_append, State.history_append, ← h.relay]
  rw [List.append_assoc] at hhears
  exact hhears

end Consumers

/-! ## The theorem -/

/-- A relay whose feed opens streams.  Whatever users do, each of its sessions opens one stream and
passes it on up to the first failure or to the end, or as far as it has come when it is torn down,
and after that it passes on nothing more; once the stream has failed or ended no pump of the session
is left.  Consumers that come in time and stay get all that the session gives. -/
theorem streams_are_passed_on (setup : Setup) (opens : Nat → Stream)
    (flowing : setup.feed = .flowing opens) (calm : ∀ call, (opens call).Calm) (acts : List Act)
    (orderly : setup.world.orderly acts = true) :
    let w := setup.world.after acts
    let log := setup.world.log acts
    (∃ history, (State.fresh setup.settings).orderly history = true ∧
      w.relay = (State.fresh setup.settings).after history ∧
      ∀ i, Account opens i w ((State.fresh setup.settings).history history) (deedsOf i log)) ∧
    ((∀ id ∈ w.executor.ready, ∀ t, w.executor.task? id ≠ some (.gate t)) →
      ∀ i < w.gate.sessions.length, i < w.starts) ∧
    (∀ id ∈ w.executor.ready, ∀ i s, w.executor.task? id = some (.pump i s) →
      w.gate.isCurrent i = true →
        Brought i id s (w.perform (.turn id)) (deedsOf i (w.entries (.turn id)))) ∧
    (∀ i < w.gate.sessions.length, w.gate.isCurrent i = false →
      ∀ later, w.orderly later = true → deedsOf i (w.log later) = []) ∧
    (∀ earlier name later i, acts = earlier ++ .step (.attach name) :: later →
      (setup.world.after earlier).hasHandle = true →
      (Hosting.attach (setup.world.after earlier)).1.gate.isCurrent i = true →
      (deedsOf i (setup.world.log earlier)).filterMap Deed.gives? = [] →
      ∃ b, Receives w i (setup.world.after earlier).relay.inboxes.length b (deedsOf i log)) := by
  obtain ⟨history, hafloat⟩ := (afloat_start flowing).after calm orderly
  refine ⟨⟨history, hafloat.orderly, hafloat.relay, fun i => (hafloat.stands i).account⟩,
    fun idle i begun => hafloat.called idle begun,
    fun id queued i s task current => hafloat.brought queued task current,
    fun i begun finished later horderly => hafloat.deeds_of_over calm horderly begun finished, ?_⟩
  rintro earlier name later i rfl held joins silent
  obtain ⟨horderly, hlater⟩ := (World.orderly_append _ _ _).mp orderly
  obtain ⟨past, hcame⟩ := (afloat_start flowing).after calm horderly
  rw [World.after_append, World.log_append]
  exact hcame.receives calm held joins silent ((World.orderly_cons _ _ _).mp hlater).2

/-! The first stream pauses, goes on and fails.  For the consumer that comes then another one is
opened, which is torn down with its last consumer before its second portion; that comes too late. -/

namespace Fitful

def lost : ProducerError := .failed "lost"

def opens : Nat → Stream
  | 0 =>
      { items := [.value (.number 1), .pause (.sleep 5), .value (.number 2), .failure lost,
          .value (.number 3)] }
  | _ => { items := [.value (.number 4)], later := fun _ => some [.value (.number 5)] }

def setup : Setup := { settings := { grace := .zero }, feed := .flowing opens }

def acts : List Act :=
  [.step (.attach "reader"), .turn 0, .turn 1, .clock 5, .turn 1, .step (.attach "late"), .turn 2,
    .turn 3, .turn 4, .step (.detach "late"), .late 4, .turn 5]

theorem calm_opens (call : Nat) : (opens call).Calm := by
  cases call with
  | zero => exact Stream.calm_of_portions (by simp [opens]) (by simp [opens])
  | succ call => exact Stream.calm_of_portions (by simp [opens]) (by simp [opens])

end Fitful

theorem streams_of_fitful_feed :
    Fitful.setup.feed = .flowing Fitful.opens ∧ (∀ call, (Fitful.opens call).Calm) ∧
      Fitful.setup.world.orderly Fitful.acts = true ∧
      deedsOf 0 (Fitful.setup.world.log Fitful.acts) =
        relaying 0 [.number 1, .number 2] ++ [.failure Fitful.lost true] ∧
      deedsOf 1 (Fitful.setup.world.log Fitful.acts) = relaying 1 [.number 4] ∧
      ∃ b, (Fitful.setup.world.after Fitful.acts).relay.inboxes[0]? = some b ∧
        b.delivered = [.value (.number 1), .value (.number 2), .failure Fitful.lost] ∧
        b.closed = true := by
  have horderly : Fitful.setup.world.orderly Fitful.acts = true := by decide +kernel
  have hfirst : deedsOf 0 (Fitful.setup.world.log Fitful.acts) =
      relaying 0 [.number 1, .number 2] ++ [.failure Fitful.lost true] := by decide +kernel
  refine ⟨rfl, Fitful.calm_opens, horderly, hfirst, by decide +kernel, ?_⟩
  obtain ⟨_, _, _, _, hconsumers⟩ :=
    streams_are_passed_on Fitful.setup Fitful.opens rfl Fitful.calm_opens Fitful.acts horderly
  obtain ⟨b, hb⟩ : ∃ b, Receives (Fitful.setup.world.after Fitful.acts) 0 0 b
      (deedsOf 0 (Fitful.setup.world.log Fitful.acts)) :=
    hconsumers [] "reader" _ 0 rfl (by decide +kernel) (by decide +kernel) rfl
  have hkept : ((Fitful.setup.world.after Fitful.acts).relay.inboxes[0]?).map Inbox.abandoned =
      some false := by decide +kernel
  have hread : b.abandoned = false := by
    rw [hb.get, Option.map_some, Option.some.injEq] at hkept
    exact hkept
  refine ⟨b, hb.get, ?_, (hb.closed hread).mpr ?_⟩
  · rw [hb.delivered hread, hfirst]
    rfl
  · rw [hfirst]
    rfl

end Lifecycle.Relay.Scenario
