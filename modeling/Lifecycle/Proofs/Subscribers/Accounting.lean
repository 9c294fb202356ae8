import Lifecycle.Proofs.Bus
import Lifecycle.Proofs.Subscribers.Listening

/-!
# What becomes of the events that are offered

An event that is emitted, or that the listener has received, is offered to every queue.  Each queue
takes it unless it is full, on its own; each refusal is told on the bus, and so is each panic.  A
worker hands the events of its queue to the subscriber one by one.  `Deals` lists what one input can
do to the queues and what is told by it; the books of a queue are kept by every step.
-/

namespace Lifecycle.Subscribers

namespace Effect

def published? : Effect → Option Event
  | publish e => some e
  | _ => none

def handed? (k : Nat) : Effect → Option Event
  | handle j e => if j = k then some e else none
  | _ => none

def isQuiet : Effect → Bool
  | signal _ | startListener => true
  | publish _ | handle _ _ => false

end Effect

namespace State

variable {s : State} {given : Input} {k : Nat} {c : Channel} {e : Event}
  {effects : List Effect} {channels : List Channel}

def published (effects : List Effect) : List Event := effects.filterMap Effect.published?

def handed (k : Nat) (effects : List Effect) : List Event := effects.filterMap (Effect.handed? k)

@[simp] theorem published_append (effects more : List Effect) :
    published (effects ++ more) = published effects ++ published more :=
  List.filterMap_append

@[simp] theorem handed_append (k : Nat) (effects more : List Effect) :
    handed k (effects ++ more) = handed k effects ++ handed k more :=
  List.filterMap_append

theorem published_of_quiet (quiet : effects.all Effect.isQuiet = true) :
    published effects = [] := by
  rw [published, List.filterMap_eq_nil_iff]
  intro e he
  have := List.all_eq_true.mp quiet e he
  cases e <;> simp_all [Effect.isQuiet, Effect.published?]

theorem handed_of_quiet (quiet : effects.all Effect.isQuiet = true) (k : Nat) :
    handed k effects = [] := by
  rw [handed, List.filterMap_eq_nil_iff]
  intro e he
  have := List.all_eq_true.mp quiet e he
  cases e <;> simp_all [Effect.isQuiet, Effect.handed?]

def workOf (s : State) (k : Nat) : Option Work := s.channels[k]?.map Channel.work

def offered? (s : State) : Input → Option Event
  | .emit e => if s.held then some e else none
  | .hear (.event e) _ => if s.listener.isListening then some e else none
  | _ => none

/-! ## One step -/

/-- What an input can do to the queues, with its effects. -/
inductive Deals (s : State) : Input → List Channel → List Effect → Prop
  | offers {given : Input} {e : Event} (offered : s.offered? given = some e) :
      Deals s given (s.channels.map (·.offer e))
        (s.channels.zipIdx.flatMap fun (c, k) => c.reply k e)
  | takes {k : Nat} {c : Channel} {e : Event} {rest : List Event}
      (channel : s.channels[k]? = some c) (idle : c.work = .idle)
      (waiting : c.waiting = e :: rest) :
      Deals s (.take k)
        (s.channels.modify k fun c => { c with handed := c.handed + 1, work := .handling })
        [.handle k e]
  | returns {k : Nat} {c : Channel} (panic : Option String) (channel : s.channels[k]? = some c)
      (handling : c.work = .handling) :
      Deals s (.handled k panic) (s.channels.modify k fun c => { c with work := .idle })
        (panic.toList.map fun info => .publish (.subscriberPanicked c.subscriber info))
  | ends {k : Nat} {c : Channel} (channel : s.channels[k]? = some c) (idle : c.work = .idle)
      (empty : c.waiting = []) (closed : s.isOpen = false) :
      Deals s (.finish k) (s.channels.modify k fun c => { c with work := .ended })
        [.signal (.workerOver k)]
  | lags (lost : Nat) (r : Receiver) (listening : s.listener.isListening = true) :
      Deals s (.hear (.lagged lost) r) s.channels [.publish lagNotice]
  | rests {given : Input} {effects : List Effect} (unoffered : s.offered? given = none)
      (quiet : effects.all Effect.isQuiet = true) : Deals s given s.channels effects

theorem quiet_farewell (s : State) : s.farewell.all Effect.isQuiet = true := by
  unfold farewell
  split
  · rfl
  · rw [List.all_map]
    exact List.all_eq_true.mpr fun _ _ => rfl

theorem take_deals (s : State) (k : Nat) :
    Deals s (.take k) (s.take k).1.channels (s.take k).2 := by
  unfold take
  cases hchannel : s.channels[k]? with
  | none => exact .rests rfl rfl
  | some c =>
      simp only
      split
      · rename_i idle waiting
        exact .takes hchannel idle waiting
      · exact .rests rfl rfl

theorem handled_deals (s : State) (k : Nat) (panic : Option String) :
    Deals s (.handled k panic) (s.handled k panic).1.channels (s.handled k panic).2 := by
  unfold handled
  cases hchannel : s.channels[k]? with
  | none => exact .rests rfl rfl
  | some c =>
      simp only
      split
      · rename_i handling
        exact .returns panic hchannel (eq_of_beq handling)
      · exact .rests rfl rfl

theorem finish_deals (s : State) (k : Nat) :
    Deals s (.finish k) (s.finish k).1.channels (s.finish k).2 := by
  unfold finish
  cases hchannel : s.channels[k]? with
  | none => exact .rests rfl rfl
  | some c =>
      simp only
      split
      · rename_i hover
        simp only [Bool.and_eq_true, beq_iff_eq, List.isEmpty_iff, Bool.not_eq_true'] at hover
        exact .ends hchannel hover.1.1 hover.1.2 hover.2
      · exact .rests rfl rfl

theorem hear_deals (s : State) (receipt : Receipt) (r : Receiver) :
    Deals s (.hear receipt r) (s.hear receipt r).1.channels (s.hear receipt r).2 := by
  cases hlistener : s.listener with
  | absent | ended =>
      rw [hear, hlistener]
      refine .rests ?_ rfl
      cases receipt <;> simp [offered?, hlistener, Listener.isListening]
  | listening _ =>
      cases receipt with
      | event e =>
          rw [hear, hlistener]
          exact .offers (by simp [offered?, hlistener, Listener.isListening])
      | lagged lost =>
          rw [hear, hlistener]
          exact .lags lost r (by rw [hlistener]; rfl)
      | nothing =>
          rw [hear, hlistener]
          exact .rests rfl rfl

theorem step_deals (s : State) (given : Input) :
    Deals s given (s.step given).1.channels (s.step given).2 := by
  cases given with
  | emit e =>
      cases hheld : s.held with
      | true =>
          rw [step, if_pos hheld]
          exact .offers (by rw [offered?, if_pos hheld])
      | false =>
          rw [step, hheld]
          exact .rests (by simp [offered?, hheld]) rfl
  | listen r =>
      rw [step, listen]
      cases s.listener with
      | absent => exact .rests rfl rfl
      | listening | ended => exact .rests rfl rfl
  | hear receipt r => exact hear_deals s receipt r
  | stop => exact .rests rfl rfl
  | unlisten =>
      rw [step, unlisten]
      cases s.listener with
      | listening _ => exact .rests rfl (quiet_farewell _)
      | absent | ended => exact .rests rfl rfl
  | release =>
      rw [step, release]
      split
      · exact .rests rfl (quiet_farewell _)
      · exact .rests rfl rfl
  | take k => exact take_deals s k
  | handled k panic => exact handled_deals s k panic
  | finish k => exact finish_deals s k

theorem step_take {rest : List Event} (channel : s.channels[k]? = some c) (idle : c.work = .idle)
    (waiting : c.waiting = e :: rest) :
    s.step (.take k) =
      (s.modifyChannel k fun c => { c with handed := c.handed + 1, work := .handling },
        [.handle k e]) := by
  simp [step, take, channel, idle, waiting]

theorem step_finish_of_waiting {rest : List Event} (channel : s.channels[k]? = some c)
    (waiting : c.waiting = e :: rest) : s.step (.finish k) = (s, []) := by
  simp [step, finish, channel, waiting]

theorem step_handled (channel : s.channels[k]? = some c) (handling : c.work = .handling)
    (panic : Option String) :
    s.step (.handled k panic) =
      (s.modifyChannel k fun c => { c with work := .idle },
        panic.toList.map fun info => .publish (.subscriberPanicked c.subscriber info)) := by
  simp [step, handled, channel, handling]

/-! ## The books of a queue -/

/-- What a step does to a queue that is offered `offer` and gives `handed` to its subscriber. -/
structure Books (c d : Channel) (offer : Option Event) (handed : List Event) : Prop where
  subscriber : d.subscriber = c.subscriber
  capacity : d.capacity = c.capacity
  accepted : d.accepted = c.accepted ++ if c.isFull then [] else offer.toList
  handed : d.accepted.take d.handed = c.accepted.take c.handed ++ handed
  within : d.handed ≤ d.accepted.length

theorem Books.same (c : Channel) (work : Work) (within : c.handed ≤ c.accepted.length) :
    Books c { c with work } none [] :=
  ⟨rfl, rfl, by simp, by simp, within⟩

theorem Books.offer (within : c.handed ≤ c.accepted.length) (e : Event) :
    Books c (c.offer e) (some e) [] := by
  unfold Channel.offer
  cases hfull : c.isFull with
  | true => exact ⟨rfl, rfl, by simp [hfull], (List.append_nil _).symm, within⟩
  | false =>
      refine ⟨rfl, rfl, by simp [hfull], ?_, ?_⟩
      · simp [List.take_append_of_le_length within]
      · simpa using Nat.le_succ_of_le within

theorem Books.take {rest : List Event} (waiting : c.waiting = e :: rest) (work : Work) :
    Books c { c with handed := c.handed + 1, work } none [e] := by
  have hlt : c.handed < c.accepted.length := by
    refine Nat.lt_of_not_le fun hlong => ?_
    rw [Channel.waiting, List.drop_eq_nil_of_le hlong] at waiting
    cases waiting
  have hnext : c.accepted[c.handed] = e := by
    rw [Channel.waiting, List.drop_eq_getElem_cons hlt] at waiting
    exact (List.cons.inj waiting).1
  refine ⟨rfl, rfl, by simp, ?_, hlt⟩
  rw [List.take_succ_eq_append_getElem hlt, hnext]

theorem Books.waiting {d : Channel} {offer : Option Event} {handed : List Event}
    (h : Books c d offer handed) :
    handed ++ d.waiting = c.waiting ++ if c.isFull then [] else offer.toList := by
  have hall : c.accepted.take c.handed ++ (handed ++ d.waiting) =
      c.accepted.take c.handed ++ (c.waiting ++ if c.isFull then [] else offer.toList) := by
    rw [← List.append_assoc, ← h.handed, Channel.waiting, List.take_append_drop, h.accepted,
      ← List.append_assoc, Channel.waiting, List.take_append_drop]
  exact List.append_cancel_left hall

theorem handed_replies (channels : List Channel) (n k : Nat) (e : Event) :
    handed k ((channels.zipIdx n).flatMap fun (c, j) => c.reply j e) = [] := by
  induction channels generalizing n with
  | nil => rfl
  | cons c rest ih =>
      rw [List.zipIdx_cons, List.flatMap_cons, handed_append, ih, List.append_nil]
      simp only [Channel.reply]
      repeat' split
      all_goals rfl

theorem published_replies (channels : List Channel) (n : Nat) (e : Event) :
    published ((channels.zipIdx n).flatMap fun (c, j) => c.reply j e) =
      if e.isOverflow then []
      else
        (channels.filter Channel.isFull).map fun c => .subscriberOverflow c.subscriber "full" := by
  induction channels generalizing n with
  | nil => simp [published]
  | cons c rest ih =>
      rw [List.zipIdx_cons, List.flatMap_cons, published_append, ih]
      simp only [Channel.reply]
      cases hfull : c.isFull with
      | true => cases e.isOverflow <;> simp [hfull, published, Effect.published?]
      | false => simp [hfull, published, Effect.published?]

theorem Deals.books (h : Deals s given channels effects) (channel : s.channels[k]? = some c)
    (within : c.handed ≤ c.accepted.length) :
    ∃ d, channels[k]? = some d ∧ Books c d (s.offered? given) (handed k effects) := by
  have hsame : Books c c none [] := .same c c.work within
  cases h with
  | offers offered =>
      rw [offered, handed_replies]
      exact ⟨_, by rw [List.getElem?_map, channel]; rfl, .offer within _⟩
  | @takes j c' e rest channel' idle waiting =>
      rw [List.getElem?_modify, channel]
      by_cases hj : j = k
      · subst hj
        obtain rfl : c = c' := Option.some.inj (channel.symm.trans channel')
        have hone : handed j [.handle j e] = [e] := by simp [handed, Effect.handed?]
        exact ⟨_, by simp; rfl, by rw [hone]; exact .take waiting _⟩
      · have hnone : handed k [.handle j e] = [] := by simp [handed, Effect.handed?, hj]
        exact ⟨c, by simp [hj], by rw [hnone]; exact hsame⟩
  | @returns j c' panic channel' handling =>
      rw [List.getElem?_modify, channel]
      have hnone : handed k (panic.toList.map fun info =>
          Effect.publish (.subscriberPanicked c'.subscriber info)) = [] := by
        cases panic <;> rfl
      rw [hnone]
      by_cases hj : j = k
      · exact ⟨_, by simp [hj]; rfl, .same c _ within⟩
      · exact ⟨c, by simp [hj], hsame⟩
  | @ends j c' channel' idle empty closed =>
      rw [List.getElem?_modify, channel]
      by_cases hj : j = k
      · exact ⟨_, by simp [hj]; rfl, .same c _ within⟩
      · exact ⟨c, by simp [hj], hsame⟩
  | lags => exact ⟨c, channel, hsame⟩
  | rests unoffered quiet =>
      rw [unoffered, handed_of_quiet quiet]
      exact ⟨c, channel, hsame⟩

/-! ## What every step keeps -/

/-- No queue is overfull, and a worker has ended only if its queue will be empty for ever. -/
structure Sound (s : State) : Prop where
  within : ∀ c ∈ s.channels, c.handed ≤ c.accepted.length
  room : ∀ c ∈ s.channels, c.waiting.length ≤ c.capacity
  manned : s.isOpen = true → ∀ c ∈ s.channels, c.work ≠ .ended
  drained : ∀ c ∈ s.channels, c.work = .ended → c.waiting = []

theorem work_offer (c : Channel) (e : Event) : (c.offer e).work = c.work := by
  unfold Channel.offer
  split <;> rfl

theorem Deals.length (h : Deals s given channels effects) :
    channels.length = s.channels.length := by
  cases h <;> simp

theorem Deals.origin {d : Channel} (h : Deals s given channels effects)
    (channel : channels[k]? = some d) : ∃ c, s.channels[k]? = some c := by
  have hlt := (List.getElem?_eq_some_iff.mp channel).1
  exact ⟨_, List.getElem?_eq_getElem (h.length ▸ hlt)⟩

def named (s : State) : List (String × Nat) := s.channels.map fun c => (c.subscriber, c.capacity)

theorem Sound.named_step (h : Sound s) (given : Input) : (s.step given).1.named = s.named := by
  have hdeals := step_deals s given
  apply List.ext_getElem?
  intro k
  rw [named, named, List.getElem?_map, List.getElem?_map]
  cases hchannel : s.channels[k]? with
  | none =>
      have hlong := List.getElem?_eq_none_iff.mp hchannel
      rw [List.getElem?_eq_none (hdeals.length ▸ hlong)]
  | some c =>
      obtain ⟨d, hd, books⟩ := hdeals.books hchannel (h.within c (List.mem_of_getElem? hchannel))
      rw [hd, Option.map_some, Option.map_some, books.subscriber, books.capacity]

theorem Deals.of_offered (h : Deals s given channels effects)
    (offered : s.offered? given = some e) :
    channels = s.channels.map (·.offer e) ∧
      effects = s.channels.zipIdx.flatMap fun (c, k) => c.reply k e := by
  cases h with
  | offers offered' =>
      obtain rfl := Option.some.inj (offered'.symm.trans offered)
      exact ⟨rfl, rfl⟩
  | takes | returns | ends | lags => cases offered
  | rests unoffered =>
      rw [unoffered] at offered
      cases offered

theorem isOpen_of_offered (offered : s.offered? given = some e) : s.isOpen = true := by
  cases given with
  | emit =>
      rw [offered?] at offered
      split at offered
      · simp_all [isOpen]
      · cases offered
  | hear receipt r =>
      cases receipt with
      | event =>
          rw [offered?] at offered
          split at offered
          · simp_all [isOpen]
          · cases offered
      | lagged | nothing => cases offered
  | _ => cases offered

theorem Deals.ended {d : Channel} (h : Deals s given channels effects)
    (before : s.channels[k]? = some c) (after : channels[k]? = some d) (ended : d.work = .ended) :
    c.work = .ended ∨ s.isOpen = false ∧ c.waiting = [] := by
  cases h with
  | offers =>
      rw [List.getElem?_map, before] at after
      cases after
      exact .inl ((work_offer c _).symm.trans ended)
  | takes | returns =>
      rw [List.getElem?_modify, before] at after
      cases after
      split at ended
      · cases ended
      · exact .inl ended
  | @ends j c' channel idle empty closed =>
      by_cases hj : j = k
      · subst hj
        obtain rfl := Option.some.inj (channel.symm.trans before)
        exact .inr ⟨closed, empty⟩
      · rw [List.getElem?_modify, before] at after
        cases after
        left
        simpa [hj] using ended
  | lags | rests =>
      rw [before] at after
      cases after
      exact .inl ended

theorem isOpen_of_step (fits : ∀ r, given = .listen r → s.held = true)
    (after : (s.step given).1.isOpen = true) : s.isOpen = true := by
  cases given with
  | emit e =>
      rw [step] at after
      split at after <;> exact after
  | listen r => rw [isOpen, fits r rfl, Bool.true_or]
  | hear receipt r =>
      cases hlistener : s.listener with
      | absent | ended =>
          rw [step, hear, hlistener] at after
          exact after
      | listening _ => simp [isOpen, hlistener, Listener.isListening]
  | stop => exact after
  | unlisten =>
      cases hlistener : s.listener with
      | absent | ended =>
          rw [step, unlisten, hlistener] at after
          exact after
      | listening _ => simp [isOpen, hlistener, Listener.isListening]
  | release =>
      cases hheld : s.held with
      | true => simp [isOpen, hheld]
      | false =>
          rw [step, release, hheld] at after
          exact after
  | take k | handled k | finish k =>
      simp only [step, take, handled, finish] at after
      split at after
      · exact after
      · split at after <;> exact after

theorem Sound.step (h : Sound s) (fits : ∀ r, given = .listen r → s.held = true) :
    Sound (s.step given).1 := by
  have hdeals := step_deals s given
  have hbooks (d : Channel) (after : d ∈ (s.step given).1.channels) :
      ∃ k c, s.channels[k]? = some c ∧ (s.step given).1.channels[k]? = some d ∧
        Books c d (s.offered? given) (handed k (s.step given).2) := by
    obtain ⟨k, hd⟩ := List.mem_iff_getElem?.mp after
    obtain ⟨c, hc⟩ := hdeals.origin hd
    obtain ⟨d', hd', books⟩ := hdeals.books hc (h.within c (List.mem_of_getElem? hc))
    obtain rfl : d' = d := Option.some.inj (hd'.symm.trans hd)
    exact ⟨k, c, hc, hd, books⟩
  constructor
  · intro d after
    obtain ⟨_, _, _, _, books⟩ := hbooks d after
    exact books.within
  · intro d after
    obtain ⟨_, c, hc, _, books⟩ := hbooks d after
    have hlength := congrArg List.length books.waiting
    rw [List.length_append, List.length_append] at hlength
    have hroom := h.room c (List.mem_of_getElem? hc)
    rw [books.capacity]
    cases hfull : c.isFull with
    | true =>
        simp [hfull] at hlength
        omega
    | false =>
        have hfree : c.waiting.length < c.capacity := by simpa [Channel.isFull] using hfull
        cases hoffered : s.offered? given <;> simp [hfull, hoffered] at hlength <;> omega
  · intro hopen d after ended
    obtain ⟨_, c, hc, hd, _⟩ := hbooks d after
    have hbefore := isOpen_of_step fits hopen
    rcases hdeals.ended hc hd ended with hended | ⟨hclosed, _⟩
    · exact h.manned hbefore c (List.mem_of_getElem? hc) hended
    · rw [hbefore] at hclosed
      cases hclosed
  · intro d after ended
    obtain ⟨k, c, hc, hd, books⟩ := hbooks d after
    have hmem := List.mem_of_getElem? hc
    obtain ⟨hclosed, hempty⟩ : s.isOpen = false ∧ c.waiting = [] := by
      rcases hdeals.ended hc hd ended with hended | hover
      · exact ⟨Bool.eq_false_iff.mpr fun hopen => h.manned hopen c hmem hended,
          h.drained c hmem hended⟩
      · exact hover
    have hnone : s.offered? given = none := by
      cases hoffered : s.offered? given with
      | none => rfl
      | some e =>
          rw [isOpen_of_offered hoffered] at hclosed
          cases hclosed
    have hwaiting := books.waiting
    rw [hempty, hnone] at hwaiting
    have hnil : handed k (s.step given).2 ++ d.waiting = [] := by simpa using hwaiting
    exact (List.append_eq_nil_iff.mp hnil).2

theorem Sound.isFull (h : Sound s) (mem : c ∈ s.channels) :
    c.isFull = decide (c.waiting.length = c.capacity) := by
  have hroom := h.room c mem
  rw [Channel.isFull, decide_eq_decide]
  omega

theorem Sound.waiting_offer (h : Sound s) (mem : c ∈ s.channels) (e : Event) :
    (c.offer e).waiting =
      if c.waiting.length = c.capacity then c.waiting else c.waiting ++ [e] := by
  have hwaiting := (Books.offer (h.within c mem) e).waiting
  rw [List.nil_append, h.isFull mem] at hwaiting
  rw [hwaiting]
  by_cases hlength : c.waiting.length = c.capacity <;> simp [hlength]

theorem Deals.published (h : Deals s given channels effects) (unoffered : s.offered? given = none)
    (unharmed : ∀ k info, given ≠ .handled k (some info)) :
    published effects = [] ∨
      published effects = [lagNotice] ∧ ∃ lost r, given = .hear (.lagged lost) r := by
  cases h with
  | offers offered =>
      rw [offered] at unoffered
      cases unoffered
  | takes | ends => exact .inl rfl
  | @returns k c panic channel handling =>
      cases panic with
      | none => exact .inl rfl
      | some info => exact absurd rfl (unharmed k info)
  | lags lost r => exact .inr ⟨rfl, lost, r, rfl⟩
  | rests _ quiet => exact .inl (published_of_quiet quiet)

end State

/-! ## Runs -/

/-- Somebody else publishes an event on the bus, or the set is given an input. -/
inductive Incident where
  | publish (e : Event)
  | input (given : Input)

namespace Circuit

open State (handed)

variable {c : Circuit} {a : Incident} {incidents : List Incident} {k : Nat}
  {subs : List (String × Nat)}

def effects (c : Circuit) : Incident → List Effect
  | .publish e => [.publish e]
  | .input given => (c.set.step given).2

def next (c : Circuit) : Incident → Circuit
  | .publish e => { c with bus := c.bus.publish e }
  | .input given => c.input given

/-- Only who holds the set can let it listen, the listener hears what is on the bus, and a
subscriber returns from an event that it was handed. -/
def admits (c : Circuit) : Incident → Bool
  | .input (.listen r) => c.set.held && decide (r = c.bus.subscribe)
  | .input (.handled k _) => c.set.workOf k == some .handling
  | .input (.hear receipt r) =>
      match c.set.listener with
      | .listening place => decide (c.bus.receive place = (receipt, r))
      | .absent | .ended => false
  | .publish _ | .input _ => true

def run (c : Circuit) : List Incident → Circuit × List Effect
  | [] => (c, [])
  | a :: rest =>
      let (last, later) := (c.next a).run rest
      (last, c.effects a ++ later)

def orderly (c : Circuit) : List Incident → Bool
  | [] => true
  | a :: rest => c.admits a && (c.next a).orderly rest

def offered? (c : Circuit) : Incident → Option Event
  | .publish _ => none
  | .input given => c.set.offered? given

/-- The events that are offered to a queue while it has room for another one. -/
def accepted (k limit : Nat) : Circuit → List Incident → List Event
  | _, [] => []
  | c, a :: rest =>
      (if (c.set.waiting k).length < limit then (c.offered? a).toList else []) ++
        accepted k limit (c.next a) rest

def ofSubscribers (bus : Bus) (subs : List (String × Nat)) : Circuit :=
  { bus, set := { channels := subs.map fun s => .ofCapacity s.1 s.2 } }

theorem run_cons (c : Circuit) (a : Incident) (rest : List Incident) :
    c.run (a :: rest) = (((c.next a).run rest).1, c.effects a ++ ((c.next a).run rest).2) := rfl

theorem run_append (c : Circuit) (incidents more : List Incident) :
    c.run (incidents ++ more) =
      (((c.run incidents).1.run more).1,
        (c.run incidents).2 ++ ((c.run incidents).1.run more).2) := by
  induction incidents generalizing c with
  | nil => rfl
  | cons a rest ih => rw [List.cons_append, run_cons, ih, run_cons, List.append_assoc]

theorem orderly_cons (c : Circuit) (a : Incident) (rest : List Incident) :
    c.orderly (a :: rest) = true ↔ c.admits a = true ∧ (c.next a).orderly rest = true := by
  simp [orderly]

theorem orderly_append (c : Circuit) (incidents more : List Incident) :
    c.orderly (incidents ++ more) = true ↔
      c.orderly incidents = true ∧ (c.run incidents).1.orderly more = true := by
  induction incidents generalizing c with
  | nil => simp [orderly, run]
  | cons a rest ih => rw [List.cons_append, orderly_cons, orderly_cons, ih, and_assoc, run_cons]

theorem held_of_admits {r : Receiver} (admitted : c.admits (.input (.listen r)) = true) :
    c.set.held = true := by
  simp only [admits, Bool.and_eq_true] at admitted
  exact admitted.1

theorem sound_next (h : c.set.Sound) (admitted : c.admits a = true) : (c.next a).set.Sound := by
  cases a with
  | publish e => exact h
  | input given =>
      rw [next, set_input]
      refine h.step ?_
      rintro r rfl
      exact held_of_admits admitted

theorem sound_run (h : c.set.Sound) (orderly : c.orderly incidents = true) :
    (c.run incidents).1.set.Sound := by
  induction incidents generalizing c with
  | nil => exact h
  | cons a rest ih =>
      rw [orderly_cons] at orderly
      exact ih (sound_next h orderly.1) orderly.2

theorem sound_ofSubscribers (bus : Bus) (subs : List (String × Nat)) :
    (ofSubscribers bus subs).set.Sound := by
  constructor
  · intro c hc
    obtain ⟨s, _, rfl⟩ := List.mem_map.mp hc
    exact Nat.le_refl _
  · intro c hc
    obtain ⟨s, _, rfl⟩ := List.mem_map.mp hc
    exact Nat.zero_le _
  · intro _ c hc
    obtain ⟨s, _, rfl⟩ := List.mem_map.mp hc
    nofun
  · intro c hc
    obtain ⟨s, _, rfl⟩ := List.mem_map.mp hc
    nofun

/-! ## The account -/

theorem next_books {ch : Channel} (h : c.set.Sound) (channel : c.set.channels[k]? = some ch)
    (a : Incident) :
    ∃ d, (c.next a).set.channels[k]? = some d ∧
      State.Books ch d (c.offered? a) (handed k (c.effects a)) := by
  have hwithin := h.within ch (List.mem_of_getElem? channel)
  cases a with
  | publish e => exact ⟨ch, channel, .same ch ch.work hwithin⟩
  | input given =>
      rw [next, set_input]
      exact (State.step_deals c.set given).books channel hwithin

theorem run_books {ch : Channel} (h : c.set.Sound) (orderly : c.orderly incidents = true)
    (channel : c.set.channels[k]? = some ch) :
    ∃ d, (c.run incidents).1.set.channels[k]? = some d ∧ d.subscriber = ch.subscriber ∧
      d.capacity = ch.capacity ∧
      d.accepted = ch.accepted ++ accepted k ch.capacity c incidents ∧
      d.accepted.take d.handed = ch.accepted.take ch.handed ++ handed k (c.run incidents).2 := by
  induction incidents generalizing c ch with
  | nil => exact ⟨ch, channel, rfl, rfl, (List.append_nil _).symm, (List.append_nil _).symm⟩
  | cons a rest ih =>
      rw [orderly_cons] at orderly
      obtain ⟨d, hd, books⟩ := next_books h channel a
      obtain ⟨last, hlast, hname, hcapacity, haccepted, hhanded⟩ :=
        ih (sound_next h orderly.1) orderly.2 hd
      refine ⟨last, hlast, hname.trans books.subscriber, hcapacity.trans books.capacity, ?_, ?_⟩
      · have hwaiting : c.set.waiting k = ch.waiting := by rw [State.waiting, channel]
        rw [haccepted, books.accepted, books.capacity, accepted, hwaiting, List.append_assoc]
        by_cases hfree : ch.waiting.length < ch.capacity
        · simp [Channel.isFull, hfree, Nat.not_le_of_lt hfree]
        · simp [Channel.isFull, hfree, Nat.le_of_not_lt hfree]
      · rw [hhanded, books.handed, run_cons, State.handed_append, List.append_assoc]

theorem bus_foldl_perform (effects : List Effect) (c : Circuit) :
    (effects.foldl perform c).bus = (State.published effects).foldl Bus.publish c.bus := by
  induction effects generalizing c with
  | nil => rfl
  | cons e rest ih =>
      rw [List.foldl_cons, ih]
      cases e <;> rfl

theorem bus_run (c : Circuit) (incidents : List Incident) :
    (c.run incidents).1.bus = (State.published (c.run incidents).2).foldl Bus.publish c.bus := by
  induction incidents generalizing c with
  | nil => rfl
  | cons a rest ih =>
      have hnext : (c.next a).bus = (State.published (c.effects a)).foldl Bus.publish c.bus := by
        cases a with
        | publish e => rfl
        | input given => exact bus_foldl_perform _ { c with set := (c.set.step given).1 }
      rw [run_cons, ih, hnext, State.published_append, List.foldl_append]

/-- What can be said of any moment of a run.  Each queue takes an event in or refuses it, whatever
the others do; a worker survives the panic of its subscriber, and one without an event in hand can
take the next one and cannot end before. -/
structure Moment (c : Circuit) (a : Incident) : Prop where
  offered : ∀ e, c.offered? a = some e → ∀ (k : Nat) (ch : Channel),
    c.set.channels[k]? = some ch → ch.work ≠ .ended ∧ (c.next a).set.workOf k = some ch.work ∧
      (c.next a).set.waiting k =
        if ch.waiting.length = ch.capacity then ch.waiting else ch.waiting ++ [e]
  refused : ∀ e, c.offered? a = some e → State.published (c.effects a) =
    if e.isOverflow then []
    else (c.set.channels.filter fun ch => ch.waiting.length = ch.capacity).map fun ch =>
      .subscriberOverflow ch.subscriber "full"
  unoffered : c.offered? a = none → ∀ (k : Nat) (ch : Channel), c.set.channels[k]? = some ch →
    handed k (c.effects a) ++ (c.next a).set.waiting k = ch.waiting
  panicked : ∀ (k : Nat) (ch : Channel) info, a = .input (.handled k (some info)) →
    c.set.channels[k]? = some ch →
      State.published (c.effects a) = [.subscriberPanicked ch.subscriber info] ∧
        (c.next a).set.channels[k]? = some { ch with work := .idle }
  silent : ∀ given, a = .input given → c.offered? a = none →
    (∀ k info, given ≠ .handled k (some info)) →
      State.published (c.effects a) = [] ∨
        State.published (c.effects a) = [lagNotice] ∧ ∃ lost r, given = .hear (.lagged lost) r
  idle : ∀ (k : Nat) (ch : Channel) e rest, c.set.channels[k]? = some ch → ch.work = .idle →
    ch.waiting = e :: rest → c.effects (.input (.take k)) = [.handle k e] ∧
      (c.next (.input (.take k))).set.waiting k = rest ∧ c.next (.input (.finish k)) = c

theorem waiting_eq {s : State} {ch : Channel} (channel : s.channels[k]? = some ch) :
    s.waiting k = ch.waiting := by
  rw [State.waiting, channel]

theorem channel_of_offered {e : Event} {ch : Channel} (offered : c.offered? a = some e)
    (channel : c.set.channels[k]? = some ch) :
    (c.next a).set.channels[k]? = some (ch.offer e) := by
  cases a with
  | publish => cases offered
  | input given =>
      rw [next, set_input, ((State.step_deals c.set given).of_offered offered).1,
        List.getElem?_map, channel]
      rfl

theorem published_of_offered {e : Event} (h : c.set.Sound) (offered : c.offered? a = some e) :
    State.published (c.effects a) =
      if e.isOverflow then []
      else (c.set.channels.filter fun ch => ch.waiting.length = ch.capacity).map fun ch =>
        .subscriberOverflow ch.subscriber "full" := by
  cases a with
  | publish => cases offered
  | input given =>
      rw [effects, ((State.step_deals c.set given).of_offered offered).2, State.published_replies,
        List.filter_congr fun ch mem => h.isFull mem]

theorem isOpen_of_offered {e : Event} (offered : c.offered? a = some e) : c.set.isOpen = true := by
  cases a with
  | publish => cases offered
  | input given => exact State.isOpen_of_offered offered

theorem moment (h : c.set.Sound) (admitted : c.admits a = true) : Moment c a := by
  constructor
  · intro e offered k ch channel
    have hmem := List.mem_of_getElem? channel
    have hnext := channel_of_offered offered channel
    refine ⟨h.manned (isOpen_of_offered offered) ch hmem, ?_, ?_⟩
    · rw [State.workOf, hnext, Option.map_some, State.work_offer]
    · rw [waiting_eq hnext, h.waiting_offer hmem]
  · exact fun e => published_of_offered h
  · intro unoffered k ch channel
    obtain ⟨d, hd, books⟩ := next_books h channel a
    rw [waiting_eq hd, books.waiting, unoffered]
    simp
  · rintro k ch info rfl channel
    have handling : ch.work = .handling := by simpa [admits, State.workOf, channel] using admitted
    have hstep := State.step_handled channel handling (some info)
    refine ⟨by rw [effects, hstep]; rfl, ?_⟩
    rw [next, set_input, hstep]
    simp [State.modifyChannel, channel]
  · rintro given rfl unoffered unharmed
    exact (State.step_deals c.set given).published unoffered unharmed
  · intro k ch e rest channel idle waiting
    have htake : c.effects (.input (.take k)) = [.handle k e] := by
      rw [effects, State.step_take channel idle waiting]
    have hfinish := State.step_finish_of_waiting channel waiting
    refine ⟨htake, ?_, by rw [next, input, hfinish]; rfl⟩
    obtain ⟨d, hd, books⟩ := next_books h channel (.input (.take k))
    have hwaiting := books.waiting
    rw [htake, waiting] at hwaiting
    rw [waiting_eq hd]
    simpa [handed, Effect.handed?, offered?, State.offered?] using hwaiting

theorem named_run (h : c.set.Sound) (orderly : c.orderly incidents = true) :
    (c.run incidents).1.set.named = c.set.named := by
  induction incidents generalizing c with
  | nil => rfl
  | cons a rest ih =>
      rw [orderly_cons] at orderly
      refine (ih (sound_next h orderly.1) orderly.2).trans ?_
      cases a with
      | publish e => rfl
      | input given =>
          rw [next, set_input]
          exact h.named_step given

/-- The books of all queues, and what is on the bus.  What was handed on and what waits is what was
accepted. -/
structure Accounted (bus : Bus) (subs : List (String × Nat)) (incidents : List Incident)
    (r : Circuit × List Effect) : Prop where
  named : r.1.set.named = subs.map fun sub => (sub.1, max 1 sub.2)
  queue : ∀ (k : Nat) (sub : String × Nat), subs[k]? = some sub →
    handed k r.2 ++ r.1.set.waiting k =
        (ofSubscribers bus subs).accepted k (max 1 sub.2) incidents ∧
      (r.1.set.waiting k).length ≤ max 1 sub.2
  published : r.1.bus.published.toList = bus.published.toList ++
    (State.published r.2).mapIdx fun n e => { e with seq := bus.count + n + 1 }
  moment : ∀ before a after, incidents = before ++ a :: after →
    Moment ((ofSubscribers bus subs).run before).1 a

theorem queues_account_for_all_events (bus : Bus) (subs : List (String × Nat))
    (incidents : List Incident) (orderly : (ofSubscribers bus subs).orderly incidents = true) :
    Accounted bus subs incidents ((ofSubscribers bus subs).run incidents) := by
  have hsound := sound_ofSubscribers bus subs
  constructor
  · rw [named_run hsound orderly]
    simp [State.named, ofSubscribers, Channel.ofCapacity]
  · intro k sub hsub
    have hchannel : (ofSubscribers bus subs).set.channels[k]? =
        some (Channel.ofCapacity sub.1 sub.2) := by
      rw [ofSubscribers, List.getElem?_map, hsub]
      rfl
    obtain ⟨d, hd, _, hcapacity, haccepted, hhanded⟩ := run_books hsound orderly hchannel
    have hroom := (sound_run hsound orderly).room d (List.mem_of_getElem? hd)
    rw [hcapacity] at hroom
    rw [waiting_eq hd]
    refine ⟨?_, hroom⟩
    have hall := List.take_append_drop d.handed d.accepted
    rw [hhanded, haccepted] at hall
    simpa [Channel.ofCapacity, Channel.waiting, haccepted] using hall
  · rw [bus_run, Bus.published_foldl]
    rfl
  · rintro before a after rfl
    rw [orderly_append, orderly_cons] at orderly
    exact moment (sound_run hsound orderly.1) orderly.2.1

end Circuit

end Lifecycle.Subscribers
