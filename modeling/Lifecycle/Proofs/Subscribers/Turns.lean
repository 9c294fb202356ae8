import Lifecycle.Proofs.Subscribers.Workers

/-!
# Turns of the tasks of a set

Whatever a task does in its turn is a row of incidents of the circuit.  A subscriber is told what
its queue hands to it and returns once from each event, as its script says; so a turn of its worker
goes from one event to the next, until a script pauses or the queue is empty.
-/

namespace Lifecycle.Subscribers

namespace Incident

def isAsked : Incident → Bool
  | publish _ | input (.emit _) | input (.listen _) => true
  | input _ => false

def returned? (k : Nat) : Incident → Option (Option String)
  | input (.handled j panic) => if j = k then some panic else none
  | _ => none

end Incident

namespace Scenario

open HasExecutor
open State (handed)

variable {bus : Bus} {subs : List Subscriber} {asked incidents : List Incident}
  {turn : Option TaskId} {hands holds : Nat → Option (List Item)} {v w : World} {id : TaskId}
  {k : Nat} {c : Channel} {s : Subscriber} {items : List Item} {given : Input} {a : Incident}

/-! ## What is noted of a run -/

def opened (bus : Bus) (subs : List Subscriber) : Circuit :=
  .ofSubscribers bus (subs.map fun s => (s.name, s.capacity))

/-- The incidents of a run, with what is asked for among them.  A subscriber returns once from each
event that it was handed, but from the one in hand. -/
structure Logged (bus : Bus) (subs : List Subscriber) (asked incidents : List Incident)
    (hands : Nat → Option (List Item)) (w : World) : Prop where
  circuit : w.circuit = ((opened bus subs).run incidents).1
  orderly : (opened bus subs).orderly incidents = true
  subscribers : w.subscribers = subs
  asked : incidents.filter Incident.isAsked = asked
  told : ∀ (k : Nat) (s : Subscriber), subs[k]? = some s → s.diary.isSome = true →
    w.told k = handed k ((opened bus subs).run incidents).2
  returned : ∀ (k : Nat) (s : Subscriber), subs[k]? = some s →
    (handed k ((opened bus subs).run incidents).2).map s.outcome =
      incidents.filterMap (Incident.returned? k) ++ ((hands k).map outcome).toList

theorem Logged.add (h : Logged bus subs asked incidents hands w)
    (admitted : w.circuit.admits a = true) (next : v.circuit = w.circuit.next a)
    (same : v.subscribers = w.subscribers)
    (told : ∀ (k : Nat) (s : Subscriber), subs[k]? = some s → s.diary.isSome = true →
      v.told k = w.told k ++ handed k (w.circuit.effects a))
    (returned : ∀ (k : Nat) (s : Subscriber), subs[k]? = some s →
      ((hands k).map outcome).toList ++ (handed k (w.circuit.effects a)).map s.outcome =
        (a.returned? k).toList ++ ((holds k).map outcome).toList) :
    Logged bus subs (asked ++ [a].filter Incident.isAsked) (incidents ++ [a]) holds v := by
  have hrun : (opened bus subs).run (incidents ++ [a]) = (w.circuit.next a,
      ((opened bus subs).run incidents).2 ++ w.circuit.effects a) := by
    rw [Circuit.run_append, ← h.circuit, Circuit.run_cons, Circuit.run, List.append_nil]
  constructor
  · rw [hrun, next]
  · rw [Circuit.orderly_append, ← h.circuit, Circuit.orderly_cons]
    exact ⟨h.orderly, admitted, rfl⟩
  · exact same.trans h.subscribers
  · rw [List.filter_append, h.asked]
  · intro k s subscriber diary
    rw [hrun, State.handed_append, told k s subscriber diary, h.told k s subscriber diary]
  · intro k s subscriber
    rw [hrun, State.handed_append, List.map_append, h.returned k s subscriber, List.append_assoc,
      returned k s subscriber, List.filterMap_append, List.append_assoc]
    congr 2

theorem Logged.named (h : Logged bus subs asked incidents hands w) :
    w.set.named = (opened bus subs).set.named := by
  have hnamed := Circuit.named_run (Circuit.sound_ofSubscribers bus _) h.orderly
  rwa [show Circuit.ofSubscribers bus _ = opened bus subs from rfl, ← h.circuit] at hnamed

theorem Logged.sound (h : Logged bus subs asked incidents hands w) : w.set.Sound := by
  have hsound := Circuit.sound_run (Circuit.sound_ofSubscribers bus _) h.orderly
  rwa [show Circuit.ofSubscribers bus _ = opened bus subs from rfl, ← h.circuit] at hsound

theorem Logged.subscriber (h : Logged bus subs asked incidents hands w)
    (channel : w.set.channels[k]? = some c) : ∃ s, subs[k]? = some s := by
  have hlength := congrArg List.length h.named
  simp only [State.named, opened, Circuit.ofSubscribers, List.length_map] at hlength
  have hk := (List.getElem?_eq_some_iff.mp channel).1
  exact ⟨_, List.getElem?_eq_getElem (hlength ▸ hk)⟩

/-! ## Steps of the set -/

structure Kept (bus : Bus) (subs : List Subscriber) (asked : List Incident) (turn : Option TaskId)
    (hands : Nat → Option (List Item)) (w : World) : Prop extends Manned turn hands w where
  logged : ∃ incidents, Logged bus subs asked incidents hands w

def hold (hands : Nat → Option (List Item)) (k : Nat) (hand : Option (List Item)) :
    Nat → Option (List Item) :=
  fun j => if j = k then hand else hands j

@[simp] theorem hold_own (hands : Nat → Option (List Item)) (k : Nat) (hand : Option (List Item)) :
    hold hands k hand k = hand :=
  if_pos rfl

theorem hold_ne {j : Nat} (hands : Nat → Option (List Item)) (hand : Option (List Item))
    (ne : some k ≠ some j) : hold hands k hand j = hands j :=
  if_neg fun heq => ne (by rw [heq])

theorem told_input (w : World) (given : Input) (k : Nat) :
    (Hosting.input w given).told k = w.told k := by
  rw [World.told, notes_input]
  rfl

theorem Kept.input (h : Kept bus subs asked turn hands w) (given : Input)
    (admitted : w.circuit.admits (.input given) = true)
    (plain : given.handles = false) (own : given.worker? = none ∨ given.worker? = turn)
    (free : given.releases = false ∨ w.owned = false) :
    Kept bus subs (asked ++ [.input given].filter Incident.isAsked) turn hands
      (Hosting.input w given) := by
  obtain ⟨incidents, hlogged⟩ := h.logged
  have untaken (k : Nat) : given ≠ .take k := by
    rintro rfl
    cases plain
  refine ⟨h.toManned.input given own free fun _ _ => rfl, _, hlogged.add admitted ?_ ?_ ?_ ?_⟩
  · exact circuit_input w given
  · exact subscribers_input w given
  · intro k s _ _
    rw [Circuit.effects, State.handed_step untaken, told_input, List.append_nil]
  · intro k s _
    have hnone : Incident.returned? k (.input given) = none := by
      cases given with
      | handled => cases plain
      | _ => rfl
    rw [Circuit.effects, State.handed_step untaken, hnone]
    simp

theorem Kept.move (h : Kept bus subs asked turn hands w) (given : Input)
    (unasked : Incident.isAsked (.input given) = false)
    (admitted : w.circuit.admits (.input given) = true) (plain : given.handles = false)
    (own : given.worker? = none ∨ given.worker? = turn)
    (free : given.releases = false ∨ w.owned = false) :
    Kept bus subs asked turn hands (Hosting.input w given) := by
  have hnext := h.input given admitted plain own free
  rwa [List.filter_cons_of_neg (by simp [unasked]), List.filter_nil, List.append_nil] at hnext

theorem Manned.noted (h : Manned turn hands w) (k : Nat) (e : Event) :
    Manned turn hands (callHandler w k e).1 := by
  unfold callHandler
  cases w.subscribers[k]? with
  | none => exact h
  | some s =>
      simp only
      split <;> exact h.same rfl rfl id

theorem callHandler_eq (e : Event) (subscriber : w.subscribers[k]? = some s) :
    (callHandler w k e).1.circuit = w.circuit ∧
      (callHandler w k e).1.subscribers = w.subscribers ∧ (callHandler w k e).2 = s.script e ∧
      ∀ j s', w.subscribers[j]? = some s' → s'.diary.isSome = true →
        (callHandler w k e).1.told j = w.told j ++ if j = k then [e] else [] := by
  rw [callHandler, subscriber]
  dsimp only
  cases hdiary : s.diary.isSome with
  | true =>
      refine ⟨rfl, rfl, rfl, fun j s' _ _ => ?_⟩
      by_cases hj : j = k
      · subst hj
        simp [World.told]
      · simp [World.told, hj, Ne.symm hj]
  | false =>
      refine ⟨rfl, rfl, rfl, fun j s' subscriber' diary => ?_⟩
      -- This subscriber writes log lines, so it is not one of those that note events.
      have hj : j ≠ k := by
        rintro rfl
        rw [Option.some.inj (subscriber.symm.trans subscriber')] at hdiary
        rw [diary] at hdiary
        cases hdiary
      simp [World.told, hj]

theorem Kept.handOn {e : Event} {rest : List Event} (h : Kept bus subs asked (some k) hands w)
    (channel : w.set.channels[k]? = some c) (idle : c.work = .idle)
    (waiting : c.waiting = e :: rest) (free : hands k = none) (subscriber : subs[k]? = some s) :
    Kept bus subs asked (some k) (hold hands k (some (s.script e)))
      (callHandler (Hosting.input w (.take k)) k e).1 := by
  obtain ⟨incidents, hlogged⟩ := h.logged
  have hsubscriber : (Hosting.input w (.take k)).subscribers[k]? = some s := by
    rw [subscribers_input, hlogged.subscribers, subscriber]
  obtain ⟨hcircuit, hsame, _, htold⟩ := callHandler_eq e hsubscriber
  have hstep := State.step_take channel idle waiting
  have heffects : w.circuit.effects (.input (.take k)) = [.handle k e] := congrArg Prod.snd hstep
  have hhanded (j : Nat) : handed j [.handle k e] = if j = k then [e] else [] := by
    by_cases hj : j = k
    · simp [handed, Effect.handed?, hj]
    · simp [handed, Effect.handed?, hj, Ne.symm hj]
  have hmanned : Manned (some k) (hold hands k (some (s.script e))) (Hosting.input w (.take k)) :=
    h.toManned.input (.take k) (.inr rfl) (.inl rfl) fun _ hj => hold_ne _ _ hj
  refine ⟨hmanned.noted k e, incidents ++ [.input (.take k)], ?_⟩
  rw [← List.append_nil asked]
  refine hlogged.add (a := .input (.take k)) rfl ?_ ?_ ?_ ?_
  · rw [hcircuit, circuit_input]
    rfl
  · rw [hsame, subscribers_input]
  · intro j s' subscriber' diary
    rw [htold j s' ?_ diary, told_input, heffects, hhanded]
    rw [subscribers_input, hlogged.subscribers, subscriber']
  · intro j s' subscriber'
    rw [heffects, hhanded]
    by_cases hj : j = k
    · subst hj
      obtain rfl := Option.some.inj (subscriber'.symm.trans subscriber)
      simp [free, Incident.returned?, outcome_script]
    · simp [hj, hold, Incident.returned?]

theorem Kept.handled (h : Kept bus subs asked (some k) hands w)
    (channel : w.set.channels[k]? = some c) (handling : c.work = .handling)
    (hand : hands k = some items) :
    Kept bus subs asked (some k) (hold hands k none)
      (Hosting.input w (.handled k (outcome items))) := by
  obtain ⟨incidents, hlogged⟩ := h.logged
  have hmanned : Manned (some k) (hold hands k none)
      (Hosting.input w (.handled k (outcome items))) :=
    h.toManned.input (.handled k (outcome items)) (.inr rfl) (.inl rfl) fun _ hj => hold_ne _ _ hj
  refine ⟨hmanned, incidents ++ [.input (.handled k (outcome items))], ?_⟩
  have hhanded (j : Nat) :
      handed j (w.circuit.effects (.input (.handled k (outcome items)))) = [] :=
    State.handed_step (fun _ heq => by cases heq) j
  rw [← List.append_nil asked]
  refine hlogged.add (a := .input (.handled k (outcome items))) ?_ (circuit_input w _)
    (subscribers_input w _) ?_ ?_
  · have hwork : w.set.workOf k = some .handling := by
      rw [State.workOf, channel, ← handling]
      rfl
    exact beq_iff_eq.mpr hwork
  · intro j s' _ _
    rw [hhanded, told_input, List.append_nil]
  · intro j s' _
    rw [hhanded]
    by_cases hj : j = k
    · subst hj
      simp [hand, Incident.returned?]
    · simp [hj, Ne.symm hj, hold, Incident.returned?]

theorem Kept.pause {rest : List Item} (h : Kept bus subs asked (some k) hands w)
    (hand : hands k = some items) (same : outcome rest = outcome items) :
    Kept bus subs asked (some k) (hold hands k (some rest)) w := by
  obtain ⟨incidents, hlogged⟩ := h.logged
  refine ⟨⟨h.ordered, h.doomed, h.length, fun j c channel other => ?_, h.placed, h.owned,
      h.present⟩,
    incidents,
    ⟨hlogged.circuit, hlogged.orderly, hlogged.subscribers, hlogged.asked, hlogged.told,
      fun j s subscriber => ?_⟩⟩
  · rw [hold_ne _ _ other]
    exact h.stands j c channel other
  · rw [hlogged.returned j s subscriber]
    by_cases hj : j = k
    · subst hj
      simp [hand, same]
    · simp [hold, hj]

theorem Kept.of_manned {next : Option TaskId} (h : Kept bus subs asked turn hands w)
    (manned : Manned next hands v) (circuit : v.circuit = w.circuit)
    (same : v.subscribers = w.subscribers) (notes : v.notes = w.notes) :
    Kept bus subs asked next hands v := by
  obtain ⟨incidents, hlogged⟩ := h.logged
  refine ⟨manned, incidents, circuit.trans hlogged.circuit, hlogged.orderly,
    same.trans hlogged.subscribers, hlogged.asked, fun k s subscriber diary => ?_, hlogged.returned⟩
  rw [World.told, notes]
  exact hlogged.told k s subscriber diary

/-! ## The turn of a worker -/

def Free (bus : Bus) (subs : List Subscriber) (asked : List Incident) (k : Nat) (w : World) :
    Prop :=
  ∃ hands c, Kept bus subs asked (some k) hands w ∧ w.set.channels[k]? = some c ∧ c.work = .idle ∧
    hands k = none

def Serving (bus : Bus) (subs : List Subscriber) (asked : List Incident) (k : Nat) (w : World)
    (items : List Item) : Prop :=
  ∃ hands c, Kept bus subs asked (some k) hands w ∧ w.set.channels[k]? = some c ∧
    c.work = .handling ∧ hands k = some items

def Served (bus : Bus) (subs : List Subscriber) (asked : List Incident) (k : Nat)
    (r : World × Rest Signal Task) : Prop :=
  ∃ hands c, Kept bus subs asked (some k) hands r.1 ∧ r.1.set.channels[k]? = some c ∧
    Parks k c (hands k) r.2

theorem channel_input {f : Channel → Channel} {effects : List Effect}
    (channel : w.set.channels[k]? = some c)
    (step : w.set.step given = (w.set.modifyChannel k f, effects)) :
    (Hosting.input w given).set.channels[k]? = some (f c) := by
  rw [set_input, step]
  simp [State.modifyChannel, channel]

theorem Serving.returns (h : Serving bus subs asked k w items) :
    Free bus subs asked k (Hosting.input w (.handled k (outcome items))) := by
  obtain ⟨hands, c, hkept, channel, handling, hand⟩ := h
  exact ⟨_, _, hkept.handled channel handling hand,
    channel_input channel (State.step_handled channel handling _), rfl, hold_own ..⟩

theorem Free.ends (h : Free bus subs asked k w) (empty : w.set.waiting k = [])
    (closed : w.set.isOpen = false) :
    Served bus subs asked k (Hosting.input w (.finish k), .ended) := by
  obtain ⟨hands, c, hkept, channel, idle, free⟩ := h
  have hempty : c.waiting = [] := (Circuit.waiting_eq channel).symm.trans empty
  have hstep : w.set.step (.finish k) =
      (w.set.modifyChannel k fun c => { c with work := .ended }, [.signal (.workerOver k)]) := by
    simp [State.step, State.finish, channel, idle, hempty, closed]
  have hnext : Kept bus subs asked (some k) hands (Hosting.input w (.finish k)) :=
    hkept.move (.finish k) rfl rfl rfl (.inr rfl) (.inl rfl)
  refine ⟨hands, _, hnext, channel_input channel hstep, ?_⟩
  rw [free]
  exact .ends rfl

theorem Free.takes {e : Event} {rest : List Event} (h : Free bus subs asked k w)
    (waiting : w.set.waiting k = e :: rest) :
    Serving bus subs asked k (callHandler (Hosting.input w (.take k)) k e).1
      (callHandler (Hosting.input w (.take k)) k e).2 := by
  obtain ⟨hands, c, hkept, channel, idle, free⟩ := h
  obtain ⟨incidents, hlogged⟩ := hkept.logged
  obtain ⟨s, subscriber⟩ := hlogged.subscriber channel
  have hwaiting : c.waiting = e :: rest := (Circuit.waiting_eq channel).symm.trans waiting
  have hsubscriber : (Hosting.input w (.take k)).subscribers[k]? = some s := by
    rw [subscribers_input, hlogged.subscribers, subscriber]
  obtain ⟨hcircuit, _, hscript, _⟩ := callHandler_eq e hsubscriber
  rw [hscript]
  refine ⟨_, { c with handed := c.handed + 1, work := .handling },
    hkept.handOn channel idle hwaiting free subscriber, ?_, rfl, hold_own ..⟩
  rw [show (callHandler (Hosting.input w (.take k)) k e).1.set = _ from
    congrArg Circuit.set hcircuit]
  exact channel_input channel (State.step_take channel idle hwaiting)

theorem Free.next (h : Free bus subs asked k w) :
    (∃ v items, Handling.next w k = (v, .inl items) ∧ Serving bus subs asked k v items) ∨
      ∃ r : World × Rest Signal Task, Handling.next w k = (r.1, .inr r.2) ∧
        Served bus subs asked k r := by
  cases hwaiting : w.set.waiting k with
  | cons e rest =>
      refine .inl ⟨_, _, ?_, h.takes hwaiting⟩
      rw [Handling.next, show (Hosting.state w).waiting k = e :: rest from hwaiting]
      rfl
  | nil =>
      have hnext : Handling.next w k = if w.set.isOpen then
          (w, .inr (Hosting.waitFor (W := World) (.worker k none) [.queue k]))
          else (Hosting.input w (.finish k), .inr .ended) := by
        rw [Handling.next, show (Hosting.state w).waiting k = [] from hwaiting]
        rfl
      cases hopen : w.set.isOpen with
      | true =>
          rw [hopen, if_pos rfl] at hnext
          obtain ⟨hands, c, hkept, channel, idle, free⟩ := h
          refine .inr ⟨(w, _), hnext, hands, c, hkept, channel, ?_⟩
          rw [free]
          exact .awaits idle ((Circuit.waiting_eq channel).symm.trans hwaiting)
      | false =>
          rw [hopen, if_neg (by simp)] at hnext
          exact .inr ⟨(Hosting.input w (.finish k), .ended), hnext, h.ends hwaiting hopen⟩

theorem Serving.pauses {rest : List Item} {signals : List Signal} {deadline : Option Nat}
    (h : Serving bus subs asked k w items) (same : outcome rest = outcome items) :
    Served bus subs asked k
      (w, .waiting (.program (.worker k (some rest))) signals deadline) := by
  obtain ⟨hands, c, hkept, channel, handling, hand⟩ := h
  refine ⟨_, c, hkept.pause hand same, channel, ?_⟩
  rw [hold_own]
  exact .pauses handling

theorem Free.yields (h : Free bus subs asked k w) :
    Served bus subs asked k (w, .yielding (.program (.worker k none))) := by
  obtain ⟨hands, c, hkept, channel, idle, free⟩ := h
  refine ⟨hands, c, hkept, channel, ?_⟩
  rw [free]
  exact .yields idle

theorem Serving.serve (fuel : Nat) (h : Serving bus subs asked k w items) :
    Served bus subs asked k (Handling.serve k fuel w items) := by
  -- One unit of fuel for each event that is taken: a script that ends leaves the worker free, and a
  -- free worker that finds an event is serving again.
  induction fuel generalizing w items with
  | zero =>
      obtain ⟨result, hrun, hleaves⟩ := runHandler_leaves w items
      rw [Handling.serve, show Handling.runHandler w k items = (w, result) from hrun]
      cases hleaves with
      | waits same => exact h.pauses same
      | ends => exact h.returns.yields
  | succ fuel ih =>
      obtain ⟨result, hrun, hleaves⟩ := runHandler_leaves w items
      rw [Handling.serve, show Handling.runHandler w k items = (w, result) from hrun]
      cases hleaves with
      | waits same => exact h.pauses same
      | ends =>
          dsimp only
          rcases h.returns.next with ⟨v, later, hnext, hserving⟩ | ⟨r, hnext, hserved⟩
          · rw [hnext]
            exact ih hserving
          · rw [hnext]
            exact hserved

theorem Free.works (h : Free bus subs asked k w) :
    Served bus subs asked k (Handling.turn w (.worker k none)) := by
  rw [Handling.turn]
  rcases h.next with ⟨v, items, hnext, hserving⟩ | ⟨r, hnext, hserved⟩
  · rw [hnext]
    exact hserving.serve _
  · rw [hnext]
    exact hserved

/-! ## The other turns -/

theorem circuit_admits_hear {r later : Receiver} {receipt : Receipt}
    (listener : w.set.listener = .listening r) (received : w.bus.receive r = (receipt, later)) :
    w.circuit.admits (.input (.hear receipt later)) = true := by
  simp [Circuit.admits, World.circuit, listener, received]

theorem Kept.hear (h : Kept bus subs asked turn hands w) {r later : Receiver} {receipt : Receipt}
    (listener : w.set.listener = .listening r) (received : w.bus.receive r = (receipt, later)) :
    Kept bus subs asked turn hands (Hosting.input w (.hear receipt later)) :=
  h.move (.hear receipt later) rfl (circuit_admits_hear listener received) rfl (.inl rfl)
    (.inl rfl)

theorem Kept.passOn (h : Kept bus subs asked turn hands w) (fuel : Nat) :
    Kept bus subs asked turn hands (Hosting.passOn fuel w).1 ∧
      ∀ p, (Hosting.passOn fuel w).2.program? = some p → p = .program .listener := by
  fun_induction Hosting.passOn fuel w with
  | case1 fuel w stopping =>
      exact ⟨h.move .unlisten rfl rfl rfl (.inl rfl) (.inl rfl), by simp [Rest.program?]⟩
  | case2 => exact ⟨h, by simp [Rest.program?]⟩
  | case3 => exact ⟨h, by simp [Rest.program?]⟩
  | case4 => exact ⟨h, fun p hp => (Option.some.inj hp).symm⟩
  | case5 fuel w going r listener lost later received =>
      exact ⟨h.hear listener received, fun p hp => (Option.some.inj hp).symm⟩
  | case6 w going r listener e later received =>
      exact ⟨h.hear listener received, fun p hp => (Option.some.inj hp).symm⟩
  | case7 w going r listener e later received next fuel ih => exact ih (h.hear listener received)

theorem Kept.shutDown (h : Kept bus subs asked turn hands w) (disowned : w.owned = false) :
    Kept bus subs asked turn hands (Hosting.shutDown w).1 ∧
      (Hosting.shutDown w).1.owned = false := by
  have hstopped : ∃ v, (if w.set.stopping then w else Hosting.input w .stop) = v ∧
      Kept bus subs asked turn hands v ∧ v.owned = false := by
    refine ⟨_, rfl, ?_⟩
    split
    · exact ⟨h, disowned⟩
    · exact ⟨h.move .stop rfl rfl rfl (.inl rfl) (.inl rfl),
        (owned_input w .stop).trans disowned⟩
  obtain ⟨v, hv, hkept, howned⟩ := hstopped
  rw [Hosting.shutDown, show (if (Hosting.state w).stopping then w else Hosting.input w .stop) = v
    from hv]
  dsimp only
  split
  · exact ⟨hkept, howned⟩
  · exact ⟨hkept.move .release rfl rfl rfl (.inl rfl) (.inr howned),
      (owned_input v .release).trans howned⟩

theorem Kept.turn_shutdown (h : Kept bus subs asked turn hands w) (disowned : w.owned = false)
    (id : TaskId) :
    Kept bus subs asked turn hands (Hosted.turn w id Task.shutdown).1 ∧
      (Hosted.turn w id Task.shutdown).1.owned = false ∧
      ∀ p, (Hosted.turn w id Task.shutdown).2.program? = some p → p = .shutdown := by
  have hshut := h.shutDown disowned
  cases hresult : Hosting.shutDown w with
  | mk v signals =>
      rw [hresult] at hshut
      obtain ⟨hkept, howned⟩ := hshut
      cases signals with
      | nil =>
          have hturn : Hosted.turn w id Task.shutdown = ({ v with closed := true }, .ended) := by
            simp [Hosted.turn, hresult]
          rw [hturn]
          exact ⟨hkept.of_manned (hkept.same rfl rfl fun owned => owned) rfl rfl rfl, howned,
            by simp [Rest.program?]⟩
      | cons signal more =>
          have hturn : Hosted.turn w id Task.shutdown =
              (v, .waiting .shutdown ((signal :: more).map .set) none) := by
            simp [Hosted.turn, hresult]
          rw [hturn]
          exact ⟨hkept, howned, fun p hp => (Option.some.inj hp).symm⟩

end Scenario

end Lifecycle.Subscribers
