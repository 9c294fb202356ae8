import Lifecycle.Proofs.Subscribers.Turns

/-!
# Fan-out

A run of the executor is a run of the circuit: what the users ask for, and what the tasks add.  When
no task is in the queue of the executor, no event waits for a subscriber that has none in hand.
-/

namespace Lifecycle.Subscribers.Scenario

open HasExecutor
open State (handed)

variable {bus : Bus} {subs : List Subscriber} {asked : List Incident}
  {hands : Nat → Option (List Item)} {v w : World} {id : TaskId} {k : Nat} {c : Channel}
  {s : Subscriber}

/-! ## Any turn -/

theorem Kept.leave {rest : Rest Signal Task} (h : Kept bus subs asked (some id) hands w)
    (parks : ∀ c, w.set.channels[id]? = some c → Parks id c (hands id) rest)
    (fits : ∀ k hand, rest.program? = some (.program (.worker k hand)) →
      id = k ∧ k < w.set.channels.length)
    (begun : rest.program? = some .shutdown → w.owned = false) :
    Kept bus subs asked none hands (Hosted.leave w id rest) := by
  refine h.of_manned (h.toManned.left parks fits begun) ?_ ?_ ?_
  all_goals cases rest <;> rfl

theorem Served.leave {r : World × Rest Signal Task} (h : Served bus subs asked k r) :
    ∃ holds, Kept bus subs asked none holds (Hosted.leave r.1 k r.2) := by
  obtain ⟨hands, c, hkept, channel, parks⟩ := h
  refine ⟨hands, hkept.leave (fun c' channel' => ?_) (fun j hand program => ?_) fun program => ?_⟩
  · rwa [Option.some.inj (channel'.symm.trans channel)]
  · cases parks.program? program
    exact ⟨rfl, (List.getElem?_eq_some_iff.mp channel).1⟩
  · cases parks.program? program

theorem Kept.channels_length (h : Kept bus subs asked turn hands w) :
    w.set.channels.length = subs.length := by
  obtain ⟨incidents, hlogged⟩ := h.logged
  have hlength := congrArg List.length hlogged.named
  simpa [State.named, opened, Circuit.ofSubscribers] using hlength

theorem Kept.leaveAside {rest : Rest Signal Task} (h : Kept bus subs asked (some id) hands w)
    (aside : subs.length ≤ id) (program : ∀ p, rest.program? = some p → p = .program .listener ∨
      p = .shutdown ∧ w.owned = false) :
    Kept bus subs asked none hands (Hosted.leave w id rest) := by
  refine h.leave (fun c channel => ?_) (fun j hand worker => ?_) fun shutdown => ?_
  · rw [List.getElem?_eq_none (h.channels_length ▸ aside)] at channel
    cases channel
  · rcases program _ worker with heq | ⟨heq, _⟩ <;> cases heq
  · rcases program _ shutdown with heq | ⟨_, disowned⟩
    · cases heq
    · exact disowned

theorem Kept.aside_of_task (h : Kept bus subs asked none hands w) {t : Task}
    (task : w.executor.task? id = some t) (other : ∀ k hand, t ≠ .program (.worker k hand)) :
    subs.length ≤ id := by
  refine Nat.le_of_not_lt fun hlt => ?_
  have hchannel := List.getElem?_eq_getElem (h.channels_length ▸ hlt)
  have hstands := h.stands id _ hchannel (by simp)
  generalize hands id = hand at hstands
  cases hstands with
  | idle _ worker | handling _ worker =>
      exact other _ _ (Option.some.inj (task.symm.trans worker))
  | ended _ none => cases none.symm.trans task

theorem Kept.call (h : Kept bus subs asked none hands w) (queued : id ∈ w.executor.ready) :
    Kept bus subs asked (some id) hands (update w (·.call id)) :=
  h.of_manned (h.toManned.call queued) rfl rfl rfl

theorem Kept.turn_worker (h : Kept bus subs asked none hands w) (queued : k ∈ w.executor.ready)
    {hand : Option (List Item)} (task : w.executor.task? k = some (.program (.worker k hand)))
    (channel : w.set.channels[k]? = some c) :
    Served bus subs asked k (Handling.turn (update w (·.call k)) (.worker k hand)) := by
  have hcalled := h.call queued
  have hstands := h.stands k c channel (by simp)
  generalize hheld : hands k = held at hstands
  cases hstands with
  | idle work worker =>
      cases worker.symm.trans task
      exact Free.works ⟨hands, c, hcalled, channel, work, hheld⟩
  | handling work worker =>
      cases worker.symm.trans task
      exact Serving.serve _ ⟨hands, c, hcalled, channel, work, hheld⟩
  | ended _ none => cases none.symm.trans task

theorem Kept.runTurn (h : Kept bus subs asked none hands w) (queued : id ∈ w.executor.ready) :
    ∃ holds, Kept bus subs asked none holds (Hosted.runTurn w id) := by
  have hcalled := h.call queued
  obtain ⟨t, task⟩ := Option.isSome_iff_exists.mp (h.ordered.queued id queued)
  have hspared : id ∉ w.executor.doomed := by
    rw [h.doomed]
    exact List.not_mem_nil
  rw [Hosted.runTurn_of_task (w := w) queued task hspared]
  cases t with
  | program program =>
      cases program with
      | worker k hand =>
          obtain ⟨rfl, hlt⟩ := h.placed id k hand task
          exact (h.turn_worker queued task (List.getElem?_eq_getElem hlt)).leave
      | listener =>
          -- The numbers of workers are all smaller, so no worker is concerned by how this task
          -- leaves.
          have haside := h.aside_of_task task (by simp)
          obtain ⟨hpassed, hprogram⟩ := hcalled.passOn (Hosting.unheard (update w (·.call id)))
          exact ⟨hands, hpassed.leaveAside haside fun p hp => .inl (hprogram p hp)⟩
  | shutdown =>
      have haside := h.aside_of_task task (by simp)
      have hdisowned : w.owned = false := by
        cases howned : w.owned with
        | false => rfl
        | true => exact absurd task ((h.owned howned).2 id)
      obtain ⟨hdown, howned, hprogram⟩ := hcalled.turn_shutdown hdisowned id
      exact ⟨hands, hdown.leaveAside haside fun p hp => .inr ⟨hprogram p hp, howned⟩⟩

/-! ## What users do -/

theorem Kept.publish (h : Kept bus subs asked none hands w) (e : Event) :
    Kept bus subs (asked ++ [.publish e]) none hands (Hosting.publish w e) := by
  obtain ⟨incidents, hlogged⟩ := h.logged
  refine ⟨h.signal (.set .published) rfl rfl rfl, incidents ++ [.publish e], ?_⟩
  refine hlogged.add (a := .publish e) rfl rfl rfl (fun k s _ _ => ?_) fun k s _ => ?_
  · exact (List.append_nil _).symm
  · simp [Circuit.effects, handed, Effect.handed?, Incident.returned?]

theorem Kept.emit (h : Kept bus subs asked none hands w) (e : Event) :
    Kept bus subs (asked ++ [.input (.emit e)]) none hands (Hosting.input w (.emit e)) :=
  h.input (.emit e) rfl rfl (.inl rfl) (.inl rfl)

theorem repeated_succ (w : World) (times : Nat) (f : World → World) :
    w.repeated (times + 1) f = f (w.repeated times f) := by
  simp [World.repeated, List.range_succ]

theorem Kept.repeated {f : World → World} {a : Incident}
    (each : ∀ asked w, Kept bus subs asked none hands w →
      Kept bus subs (asked ++ [a]) none hands (f w))
    (h : Kept bus subs asked none hands w) (times : Nat) :
    Kept bus subs (asked ++ List.replicate times a) none hands (w.repeated times f) := by
  induction times with
  | zero => simpa [World.repeated] using h
  | succ times ih =>
      rw [List.replicate_succ', ← List.append_assoc]
      rw [repeated_succ]
      exact each _ _ ih

theorem Kept.taps (h : Kept bus subs asked none hands w) (taps : List (String × Receiver)) :
    Kept bus subs asked none hands { w with taps } :=
  h.of_manned (h.same rfl rfl fun owned => owned) rfl rfl rfl

theorem Kept.disowned (h : Kept bus subs asked none hands w) :
    Kept bus subs asked none hands { w with owned := false } :=
  h.of_manned (h.same rfl rfl (by simp)) rfl rfl rfl

theorem Kept.still {act : Act} (h : Kept bus subs asked none hands v) (nothing : w.asked act = []) :
    Kept bus subs (asked ++ w.asked act) none hands v := by
  rwa [nothing, List.append_nil]

theorem Kept.step (h : Kept bus subs asked none hands w) (s : Step)
    (admitted : w.admits (.step s) = true) :
    Kept bus subs (asked ++ w.asked (.step s)) none hands (w.take s).1 := by
  cases s with
  | publish e times => exact h.repeated (fun _ _ h => h.publish e) times
  | emit e times =>
      rw [World.take, World.asked]
      split
      · exact h.repeated (fun _ _ h => h.emit e) times
      · rwa [List.append_nil]
  | tap name | untap name => exact (h.taps _).still rfl
  | drain name =>
      refine Kept.still ?_ rfl
      rw [World.take]
      split
      · exact h
      · exact h.taps _
  | listen =>
      rw [World.take, World.asked]
      split
      · rename_i howned
        have hadmitted : w.circuit.admits (.input (.listen w.bus.subscribe)) = true := by
          simp [Circuit.admits, World.circuit, (h.owned howned).1]
        exact h.input _ hadmitted rfl (.inl rfl) (.inl rfl)
      · rwa [List.append_nil]
  | dropSet =>
      refine Kept.still ?_ rfl
      rw [World.take]
      split
      · exact h.disowned.move .release rfl rfl rfl (.inl rfl) (.inr rfl)
      · exact h
  | release latch =>
      refine Kept.still ?_ rfl
      exact h.of_manned (h.signal (.latch latch) rfl rfl rfl) rfl rfl rfl
  | shutdown | advance ms | settle => cases admitted

theorem Kept.shutdown (h : Kept bus subs asked none hands w) :
    Kept bus subs asked none hands (w.perform .shutdown) := by
  rw [World.perform]
  split
  · have hspares := Executor.spares_spawn h.ordered Task.shutdown
    refine h.of_manned ?_ rfl rfl rfl
    refine h.toManned.aside rfl hspares.ordered (hspares.doomed.trans h.doomed) (Nat.le_succ _)
      hspares.spared (fun id t task => ?_) (fun owned => absurd owned Bool.false_ne_true)
      (by simp)
    by_cases hid : id = w.executor.nextTask
    · subst hid
      have hnew := Executor.task?_spawn h.ordered.toNumbered Task.shutdown
      exact .inr ⟨Nat.le_refl _, Option.some.inj (task.symm.trans hnew), rfl⟩
    · exact .inl ((Executor.task?_spawn_ne _ hid).symm.trans task)
  · exact h

theorem Kept.clock (h : Kept bus subs asked none hands w) (target : Nat) :
    Kept bus subs asked none hands (update w (·.moveClock target)) := by
  obtain ⟨more, hmore⟩ := w.executor.moveClock_eq target
  refine h.of_manned ?_ rfl rfl rfl
  refine h.toManned.aside rfl (h.ordered.moveClock target) ?_ ?_ (fun id present other => ?_) ?_
    (fun owned => owned) (by simp)
  · exact (congrArg Executor.doomed hmore).trans h.doomed
  · exact Nat.le_of_eq (congrArg Executor.nextTask hmore).symm
  · exact Executor.spared_moveClock present (h.ordered.idle other) target
  · exact fun id t task => .inl ((congrArg (·.task? id) hmore).symm.trans task)

theorem Kept.perform (h : Kept bus subs asked none hands w) (a : Act)
    (admitted : w.admits a = true) :
    ∃ holds, Kept bus subs (asked ++ w.asked a) none holds (w.perform a) := by
  cases a with
  | step s => exact ⟨hands, h.step s admitted⟩
  | shutdown => exact ⟨hands, h.shutdown.still rfl⟩
  | turn id =>
      obtain ⟨holds, hnext⟩ := h.runTurn (List.contains_iff_mem.mp admitted)
      exact ⟨holds, hnext.still rfl⟩
  | clock target => exact ⟨hands, (h.clock target).still rfl⟩

theorem Kept.run {acts : List Act} (h : Kept bus subs asked none hands w)
    (orderly : w.orderly acts = true) :
    ∃ holds, Kept bus subs (asked ++ w.askedAll acts) none holds (w.after acts) := by
  induction acts generalizing w asked hands with
  | nil =>
      rw [World.askedAll, List.append_nil]
      exact ⟨hands, h⟩
  | cons a rest ih =>
      rw [World.orderly_cons] at orderly
      obtain ⟨holds, hnext⟩ := h.perform a orderly.1
      rw [World.askedAll, ← List.append_assoc]
      exact ih hnext orderly.2

/-! ## The first workers -/

structure Staffed (n : Nat) (x : Executor Signal Task) : Prop where
  ordered : x.Ordered none
  doomed : x.doomed = []
  nextTask : x.nextTask = n
  task : ∀ id, x.task? id = if id < n then some (.program (.worker id none)) else none
  ready : ∀ id < n, id ∈ x.ready

theorem Staffed.spawn {x : Executor Signal Task} {n : Nat} (h : Staffed n x) :
    Staffed (n + 1) (x.spawn (.program (.worker n none))) where
  ordered := h.ordered.spawn _
  doomed := h.doomed
  nextTask := congrArg Nat.succ h.nextTask
  task id := by
    by_cases hid : id = x.nextTask
    · rw [hid, Executor.task?_spawn h.ordered.toNumbered, h.nextTask, if_pos (Nat.lt_succ_self n)]
    · rw [Executor.task?_spawn_ne _ hid, h.task]
      rw [h.nextTask] at hid
      by_cases hlt : id < n
      · rw [if_pos hlt, if_pos (Nat.lt_succ_of_lt hlt)]
      · rw [if_neg hlt, if_neg fun hnew => (Nat.lt_succ_iff_lt_or_eq.mp hnew).elim hlt hid]
  ready id hid := by
    rcases Nat.lt_succ_iff_lt_or_eq.mp hid with hlt | rfl
    · exact List.mem_append_left _ (h.ready id hlt)
    · exact List.mem_append_right _ (List.mem_singleton.mpr h.nextTask.symm)

theorem staffed_range (w : World) (n : Nat) (fresh : w.executor = {}) :
    ∃ x, (List.range n).foldl
        (fun w k => HasExecutor.spawn w (Hosting.toTask World (.worker k none))) w =
      { w with executor := x } ∧ Staffed n x := by
  induction n with
  | zero =>
      refine ⟨{}, by rw [← fresh]; rfl, ⟨⟨nofun, nofun⟩, nofun, rfl⟩, rfl, rfl, ?_, nofun⟩
      exact fun id => (if_neg (Nat.not_lt_zero id)).symm
  | succ n ih =>
      obtain ⟨x, hx, hstaffed⟩ := ih
      rw [List.range_succ, List.foldl_append, hx]
      exact ⟨_, rfl, hstaffed.spawn⟩

theorem kept_ofSubscribers (busCapacity : Nat) (subs : List Subscriber) :
    Kept (Bus.ofCapacity busCapacity) subs [] none (fun _ => none)
      (World.ofSubscribers busCapacity subs) := by
  let channels := subs.map fun s => Channel.ofCapacity s.name s.capacity
  let bare : World :=
    { bus := Bus.ofCapacity busCapacity, set := { channels }, subscribers := subs }
  obtain ⟨x, hx, hstaffed⟩ := staffed_range bare channels.length rfl
  rw [show World.ofSubscribers busCapacity subs = { bare with executor := x } from hx]
  refine ⟨⟨hstaffed.ordered, hstaffed.doomed, Nat.le_of_eq hstaffed.nextTask.symm,
    fun k c channel _ => ?_, fun id k hand task => ?_, fun _ => ⟨rfl, fun id task => ?_⟩,
    by simp⟩, [], ?_⟩
  · have hlt : k < channels.length := (List.getElem?_eq_some_iff.mp channel).1
    have hidle : c.work = .idle := by
      obtain ⟨s, _, rfl⟩ := List.mem_map.mp (List.mem_of_getElem? channel)
      rfl
    exact .idle hidle ((hstaffed.task k).trans (if_pos hlt)) (.inl (hstaffed.ready k hlt))
  · have htask := (hstaffed.task id).symm.trans task
    split at htask
    · rename_i hlt
      cases htask
      exact ⟨rfl, hlt⟩
    · cases htask
  · have htask := (hstaffed.task id).symm.trans task
    split at htask <;> cases htask
  · refine ⟨?_, rfl, rfl, rfl, fun _ _ _ _ => rfl, fun _ _ _ => rfl⟩
    simp [World.circuit, bare, channels, opened, Circuit.ofSubscribers, Circuit.run,
      Function.comp_def]

/-! ## Every run -/

theorem Kept.inHand (h : Kept bus subs asked none hands w) (subscriber : subs[k]? = some s) :
    hands k = w.inHand k := by
  have hlt := (List.getElem?_eq_some_iff.mp subscriber).1
  have hstands := h.stands k _ (List.getElem?_eq_getElem (h.channels_length ▸ hlt)) (by simp)
  generalize hands k = hand at hstands
  rw [World.inHand]
  cases hstands with
  | idle _ task | handling _ task | ended _ task => rw [task]

theorem Kept.rest (h : Kept bus subs asked none hands w) (quiet : w.executor.ready = []) (k : Nat) :
    w.set.waiting k = [] ∨ w.set.workOf k = some .handling := by
  obtain ⟨incidents, hlogged⟩ := h.logged
  rw [State.waiting, State.workOf]
  cases hchannel : w.set.channels[k]? with
  | none => exact .inl rfl
  | some c =>
      have hstands := h.stands k c hchannel (by simp)
      generalize hands k = hand at hstands
      cases hstands with
      | idle _ _ awaits =>
          rcases awaits with hready | ⟨hempty, _⟩
          · rw [quiet] at hready
            cases hready
          · exact .inl hempty
      | handling work => exact .inr (congrArg some work)
      | ended work => exact .inl (hlogged.sound.drained c (List.mem_of_getElem? hchannel) work)

structure FannedOut (bus : Bus) (subs : List Subscriber) (asked : List Incident) (w : World) :
    Prop where
  logged : ∃ incidents, Logged bus subs asked incidents w.inHand w
  rest : w.executor.ready = [] → ∀ k, w.set.waiting k = [] ∨ w.set.workOf k = some .handling

/-- Every run of the circuit is accounted for, and every run of the executor is one of those. -/
theorem events_are_fanned_out (busCapacity : Nat) (subs : List Subscriber) :
    (∀ bus incidents, (opened bus subs).orderly incidents = true →
      Circuit.Accounted bus (subs.map fun s => (s.name, s.capacity)) incidents
        ((opened bus subs).run incidents)) ∧
    ∀ acts, (World.ofSubscribers busCapacity subs).orderly acts = true →
      FannedOut (.ofCapacity busCapacity) subs
        ((World.ofSubscribers busCapacity subs).askedAll acts)
        ((World.ofSubscribers busCapacity subs).after acts) := by
  refine ⟨fun bus incidents => Circuit.queues_account_for_all_events bus _ incidents,
    fun acts orderly => ?_⟩
  obtain ⟨hands, hkept⟩ := (kept_ofSubscribers busCapacity subs).run orderly
  obtain ⟨incidents, hlogged⟩ := hkept.logged
  refine ⟨⟨incidents, hlogged.circuit, hlogged.orderly, hlogged.subscribers, hlogged.asked,
    hlogged.told, fun k s subscriber => ?_⟩, hkept.rest⟩
  rw [hlogged.returned k s subscriber, hkept.inHand subscriber]

/-- The first subscriber waits with an event in hand, and the second one panics at an error. -/
def crew : List Subscriber :=
  [{ name := "slow", capacity := 1, diary := some "slow", pauses := [.hold "latch"] },
    { name := "rash", capacity := 2, diary := some "rash",
      panics := [(.kind .errorReported, .text "boom")] }]

/-- The last event does not find room in the queue of the first subscriber; the listener passes on
what is told of that and of the panic. -/
def mishaps : List Act :=
  [.step .listen, .step (.emit (.of .taskStarted) 1), .turn 0, .turn 1,
    .step (.emit (.of .errorReported) 1), .step (.emit (.of .taskFinished) 1), .turn 1, .turn 2,
    .turn 1]

def mishapInputs : List Incident :=
  [.input (.emit (.of .taskStarted)), .input (.take 0), .input (.emit (.of .errorReported)),
    .input (.emit (.of .taskFinished)), .input (.handled 0 (some "boom")), .input (.take 0)]

theorem mishaps_are_fanned_out :
    (opened (.ofCapacity 8) crew).orderly mishapInputs = true ∧
      Circuit.Accounted (.ofCapacity 8) (crew.map fun s => (s.name, s.capacity)) mishapInputs
        ((opened (.ofCapacity 8) crew).run mishapInputs) ∧
      (World.ofSubscribers 8 crew).orderly mishaps = true ∧
      FannedOut (.ofCapacity 8) crew ((World.ofSubscribers 8 crew).askedAll mishaps)
        ((World.ofSubscribers 8 crew).after mishaps) ∧
      ((World.ofSubscribers 8 crew).after mishaps).executor.ready = [] ∧
      ((World.ofSubscribers 8 crew).after mishaps).told 1 =
        [.of .taskStarted, .of .errorReported, .of .taskFinished,
          { Event.subscriberOverflow "slow" "full" with seq := 1 },
          { Event.subscriberPanicked "rash" "boom" with seq := 2 }] := by
  have hinputs : (opened (.ofCapacity 8) crew).orderly mishapInputs = true := by decide +kernel
  have horderly : (World.ofSubscribers 8 crew).orderly mishaps = true := by decide +kernel
  exact ⟨hinputs, (events_are_fanned_out 8 crew).1 _ mishapInputs hinputs, horderly,
    (events_are_fanned_out 8 crew).2 mishaps horderly, by decide +kernel, by decide +kernel⟩

end Lifecycle.Subscribers.Scenario
