import Lifecycle.Subscribers.Scenario

/-!
# A subscriber set that listens

The listener of a set receives what is published on a bus, and what it cannot pass on is published
on the same bus.  A `Circuit` is the set together with this bus.  In each act somebody publishes
something, or the listener receives once and deals with the receipt, or a worker gets on.
-/

namespace Lifecycle

namespace Bus

/-- Which of the published events tell of a refusal or a lag. -/
def overflows (bus : Bus) : List Bool := bus.published.toList.map Event.isOverflow

@[simp] theorem overflows_publish (bus : Bus) (e : Event) :
    (bus.publish e).overflows = bus.overflows ++ [e.isOverflow] := by
  simp [overflows, publish, Event.isOverflow]

@[simp] theorem length_overflows (bus : Bus) : bus.overflows.length = bus.count := by
  simp [overflows, count]

@[simp] theorem window_publish (bus : Bus) (e : Event) : (bus.publish e).window = bus.window := rfl

end Bus

namespace Subscribers

structure Circuit where
  bus : Bus
  set : State

inductive Act where
  | publish (e : Event)
  | hear
  | take (k : Nat)
  | handled (k : Nat)

namespace Circuit

def perform (c : Circuit) : Effect → Circuit
  | .publish e => { c with bus := c.bus.publish e }
  | _ => c

def input (c : Circuit) (i : Input) : Circuit :=
  let (set, effects) := c.set.step i
  effects.foldl perform { c with set }

def act (c : Circuit) : Act → Circuit
  | .publish e => { c with bus := c.bus.publish e }
  | .hear =>
      match c.set.listener with
      | .listening r =>
          let (receipt, r) := c.bus.receive r
          c.input (.hear receipt r)
      | .absent | .ended => c
  | .take k => c.input (.take k)
  | .handled k => c.input (.handled k none)

def after (c : Circuit) (acts : Nat → Act) : Nat → Circuit
  | 0 => c
  | n + 1 => (c.after acts n).act (acts n)

def listening (bus : Bus) (channels : List Channel) : Circuit :=
  { bus, set := { channels, listener := .listening bus.subscribe } }

def position (c : Circuit) : Nat :=
  match c.set.listener with
  | .listening r => r.position
  | .absent | .ended => c.bus.count

def unread (c : Circuit) : Nat := c.bus.count - c.position

def notices (c : Circuit) : Nat := c.bus.overflows.count true

/-! ## Effects -/

def published (effects : List Effect) : List Bool :=
  effects.filterMap fun
    | .publish e => some e.isOverflow
    | _ => none

theorem published_append (a b : List Effect) : published (a ++ b) = published a ++ published b :=
  List.filterMap_append

theorem set_foldl_perform (effects : List Effect) (c : Circuit) :
    (effects.foldl perform c).set = c.set := by
  induction effects generalizing c with
  | nil => rfl
  | cons effect rest ih =>
      rw [List.foldl_cons, ih]
      cases effect <;> rfl

theorem window_foldl_perform (effects : List Effect) (c : Circuit) :
    (effects.foldl perform c).bus.window = c.bus.window := by
  induction effects generalizing c with
  | nil => rfl
  | cons effect rest ih =>
      rw [List.foldl_cons, ih]
      cases effect <;> rfl

theorem overflows_foldl_perform (effects : List Effect) (c : Circuit) :
    (effects.foldl perform c).bus.overflows = c.bus.overflows ++ published effects := by
  induction effects generalizing c with
  | nil => exact (List.append_nil _).symm
  | cons effect rest ih =>
      rw [List.foldl_cons, ih]
      cases effect with
      | publish e =>
          simp only [perform, Bus.overflows_publish, List.append_assoc]
          rfl
      | signal s => rfl
      | startListener => rfl
      | handle k e => rfl

theorem set_input (c : Circuit) (i : Input) : (c.input i).set = (c.set.step i).1 :=
  set_foldl_perform _ _

theorem window_input (c : Circuit) (i : Input) : (c.input i).bus.window = c.bus.window :=
  window_foldl_perform _ _

theorem overflows_input (c : Circuit) (i : Input) :
    (c.input i).bus.overflows = c.bus.overflows ++ published (c.set.step i).2 :=
  overflows_foldl_perform _ _

/-- How often an event can be refused aloud when it is offered to that many queues. -/
def refusals (channels : Nat) (overflow : Bool) : Nat := if overflow then 0 else channels

theorem published_replies (channels : List Channel) (k : Nat) (e : Event) :
    ∃ j, published ((channels.zipIdx k).flatMap fun (c, k) => c.reply k e) = List.replicate j true ∧
      j ≤ refusals channels.length e.isOverflow := by
  induction channels generalizing k with
  | nil => exact ⟨0, rfl, Nat.zero_le _⟩
  | cons c rest ih =>
      obtain ⟨j, hj, hle⟩ := ih (k + 1)
      rw [List.zipIdx_cons, List.flatMap_cons, published_append, hj]
      change ∃ i, published (c.reply k e) ++ List.replicate j true = List.replicate i true ∧ _
      have hmore :
          refusals rest.length e.isOverflow ≤ refusals (c :: rest).length e.isOverflow := by
        cases e.isOverflow with
        | true => exact Nat.le_refl _
        | false => exact Nat.le_succ _
      cases hfull : c.isFull with
      | false =>
          have hreply : c.reply k e = [.signal (.queue k)] := by
            rw [Channel.reply, hfull]
            rfl
          exact ⟨j, by rw [hreply]; rfl, by omega⟩
      | true =>
          cases hoverflow : e.isOverflow with
          | true =>
              have hreply : c.reply k e = [] := by
                rw [Channel.reply, hfull, hoverflow]
                rfl
              rw [hoverflow] at hle
              exact ⟨j, by rw [hreply]; rfl, hle⟩
          | false =>
              have hreply : c.reply k e = [.publish (.subscriberOverflow c.subscriber "full")] := by
                rw [Channel.reply, hfull, hoverflow]
                rfl
              rw [hoverflow] at hle
              exact ⟨j + 1, by rw [hreply]; rfl, Nat.succ_le_succ hle⟩

/-! ## The listener -/

def Listens (c : Circuit) : Prop :=
  ∃ r, c.set.listener = .listening r ∧ r.position ≤ c.bus.count

theorem position_eq {c : Circuit} {r : Receiver} (h : c.set.listener = .listening r) :
    c.position = r.position := by
  rw [position, h]

theorem hear_of_behind {c : Circuit} {r : Receiver} (h : c.set.listener = .listening r)
    (behind : r.position < c.bus.overwritten) :
    c.act .hear =
      { bus := c.bus.publish lagNotice
        set := { c.set with listener := .listening ⟨c.bus.overwritten⟩ } } := by
  simp only [act, h, Bus.receive, if_pos behind, input, State.step, State.hear]
  rfl

theorem hear_of_read {c : Circuit} {r : Receiver} (h : c.set.listener = .listening r)
    (near : c.bus.overwritten ≤ r.position) (read : c.bus.count ≤ r.position) :
    c.act .hear = c := by
  have hnone : c.bus.published[r.position]? = none := Array.getElem?_eq_none read
  have hset : { c.set with listener := .listening r } = c.set := by rw [← h]
  simp only [act, h, Bus.receive, if_neg (Nat.not_lt.mpr near), hnone, input, State.step,
    State.hear, hset]
  rfl

theorem hear_of_unread {c : Circuit} {r : Receiver} (h : c.set.listener = .listening r)
    (near : c.bus.overwritten ≤ r.position) {e : Event}
    (next : c.bus.published[r.position]? = some e) :
    (c.act .hear).set.listener = .listening ⟨r.position + 1⟩ ∧
      (c.act .hear).set.channels.length = c.set.channels.length ∧
      ∃ j, (c.act .hear).bus.overflows = c.bus.overflows ++ List.replicate j true ∧
        j ≤ refusals c.set.channels.length e.isOverflow := by
  have hhear : c.act .hear = c.input (.hear (.event e) ⟨r.position + 1⟩) := by
    simp only [act, h, Bus.receive, if_neg (Nat.not_lt.mpr near), next]
  have hstep : c.set.step (.hear (.event e) ⟨r.position + 1⟩) =
      { c.set with listener := .listening ⟨r.position + 1⟩ }.fanOut e := by
    simp only [State.step, State.hear, h]
  rw [hhear, set_input, overflows_input, hstep]
  refine ⟨rfl, List.length_map _, ?_⟩
  obtain ⟨j, hj, hle⟩ := published_replies c.set.channels 0 e
  exact ⟨j, congrArg _ hj, hle⟩

/-! ## The load of the listener -/

/-- What the events can still cause: one receipt each, and one for each refusal of the event. -/
def weigh (channels : Nat) : List Bool → Nat
  | [] => 0
  | overflow :: rest => refusals channels overflow + 1 + weigh channels rest

theorem weigh_append (channels : Nat) (a b : List Bool) :
    weigh channels (a ++ b) = weigh channels a + weigh channels b := by
  induction a with
  | nil => exact (Nat.zero_add _).symm
  | cons overflow rest ih =>
      rw [List.cons_append, weigh, ih, weigh]
      omega

theorem weigh_replicate (channels j : Nat) : weigh channels (List.replicate j true) = j := by
  induction j with
  | zero => rfl
  | succ j ih =>
      rw [List.replicate_succ, weigh, ih, refusals]
      simp
      omega

def load (c : Circuit) : Nat := weigh c.set.channels.length (c.bus.overflows.drop c.position)

theorem unread_eq (c : Circuit) : c.unread = (c.bus.overflows.drop c.position).length := by
  rw [List.length_drop, Bus.length_overflows, unread]

theorem unread_le_load (c : Circuit) : c.unread ≤ c.load := by
  rw [unread_eq, load]
  induction c.bus.overflows.drop c.position with
  | nil => exact Nat.le_refl _
  | cons overflow rest ih =>
      rw [List.length_cons, weigh]
      omega

theorem behind_iff {c : Circuit} {r : Receiver} (h : c.set.listener = .listening r) :
    c.bus.window < c.unread ↔ r.position < c.bus.overwritten := by
  rw [unread, position_eq h, Bus.overwritten]
  omega

/-! ## Acts -/

theorem take_quiet (s : State) (k : Nat) :
    (s.take k).1.listener = s.listener ∧ (s.take k).1.channels.length = s.channels.length ∧
      published (s.take k).2 = [] := by
  unfold State.take
  cases s.channels[k]? with
  | none => exact ⟨rfl, rfl, rfl⟩
  | some c =>
      simp only
      split
      · exact ⟨rfl, List.length_modify _ _ _, rfl⟩
      · exact ⟨rfl, rfl, rfl⟩

theorem handled_quiet (s : State) (k : Nat) :
    (s.handled k none).1.listener = s.listener ∧
      (s.handled k none).1.channels.length = s.channels.length ∧
      published (s.handled k none).2 = [] := by
  unfold State.handled
  cases s.channels[k]? with
  | none => exact ⟨rfl, rfl, rfl⟩
  | some c =>
      simp only
      split
      · exact ⟨rfl, List.length_modify _ _ _, rfl⟩
      · exact ⟨rfl, rfl, rfl⟩

inductive Moves (c d : Circuit) : Act → Prop
  | published (e : Event) (bus : d.bus.overflows = c.bus.overflows ++ [e.isOverflow])
      (position : d.position = c.position) : Moves c d (.publish e)
  | lagged (behind : c.bus.window < c.unread) (bus : d.bus.overflows = c.bus.overflows ++ [true])
      (position : d.position = c.bus.overwritten) : Moves c d .hear
  | heard (near : c.unread ≤ c.bus.window) (overflow : Bool)
      (next : c.bus.overflows[c.position]? = some overflow) (j : Nat)
      (few : j ≤ refusals c.set.channels.length overflow)
      (bus : d.bus.overflows = c.bus.overflows ++ List.replicate j true)
      (position : d.position = c.position + 1) : Moves c d .hear
  | idled (read : c.unread = 0) (bus : d.bus.overflows = c.bus.overflows)
      (position : d.position = c.position) : Moves c d .hear
  | took (k : Nat) (bus : d.bus.overflows = c.bus.overflows) (position : d.position = c.position) :
      Moves c d (.take k)
  | handled (k : Nat) (bus : d.bus.overflows = c.bus.overflows)
      (position : d.position = c.position) : Moves c d (.handled k)

structure Framed (c d : Circuit) : Prop where
  listens : d.Listens
  window : d.bus.window = c.bus.window
  channels : d.set.channels.length = c.set.channels.length

theorem input_quiet {c : Circuit} (h : c.Listens) {i : Input}
    (quiet : (c.set.step i).1.listener = c.set.listener ∧
      (c.set.step i).1.channels.length = c.set.channels.length ∧
      published (c.set.step i).2 = []) :
    Framed c (c.input i) ∧ (c.input i).bus.overflows = c.bus.overflows ∧
      (c.input i).position = c.position := by
  obtain ⟨hlistener, hchannels, hpublished⟩ := quiet
  obtain ⟨r, hr, hwithin⟩ := h
  have hlistening : (c.input i).set.listener = .listening r := by rw [set_input, hlistener, hr]
  have hbus : (c.input i).bus.overflows = c.bus.overflows := by
    rw [overflows_input, hpublished, List.append_nil]
  have hcount : (c.input i).bus.count = c.bus.count := by
    rw [← Bus.length_overflows, hbus, Bus.length_overflows]
  refine ⟨⟨⟨r, hlistening, ?_⟩, window_input c i, ?_⟩, hbus, ?_⟩
  · rw [hcount]
    exact hwithin
  · rw [set_input]
    exact hchannels
  · rw [position_eq hlistening, position_eq hr]

theorem hear_moves {c : Circuit} (h : c.Listens) :
    Moves c (c.act .hear) .hear ∧ Framed c (c.act .hear) := by
  obtain ⟨r, hr, hwithin⟩ := h
  by_cases hbehind : r.position < c.bus.overwritten
  · rw [hear_of_behind hr hbehind]
    constructor
    · exact .lagged ((behind_iff hr).mpr hbehind) (Bus.overflows_publish _ _) rfl
    · refine ⟨⟨_, rfl, ?_⟩, rfl, rfl⟩
      rw [← Bus.length_overflows, Bus.overflows_publish, List.length_append, Bus.length_overflows]
      exact Nat.le_trans (Nat.sub_le _ _) (Nat.le_add_right _ _)
  · have hnear : c.bus.overwritten ≤ r.position := Nat.not_lt.mp hbehind
    have hunread : c.unread ≤ c.bus.window := by
      rw [← Nat.not_lt, behind_iff hr]
      exact hbehind
    by_cases hread : c.bus.count ≤ r.position
    · rw [hear_of_read hr hnear hread]
      constructor
      · refine .idled ?_ rfl rfl
        rw [unread, position_eq hr]
        omega
      · exact ⟨⟨r, hr, hwithin⟩, rfl, rfl⟩
    · have hlt : r.position < c.bus.published.size := Nat.not_le.mp hread
      have hnext := Array.getElem?_eq_getElem hlt
      obtain ⟨hlistener, hchannels, j, hbus, hfew⟩ := hear_of_unread hr hnear hnext
      constructor
      · refine .heard hunread _ ?_ j hfew hbus ?_
        · rw [position_eq hr, Bus.overflows, List.getElem?_map, Array.getElem?_toList, hnext]
          rfl
        · rw [position_eq hlistener, position_eq hr]
      · refine ⟨⟨_, hlistener, ?_⟩, ?_, hchannels⟩
        · rw [← Bus.length_overflows, hbus, List.length_append, Bus.length_overflows]
          exact Nat.le_trans hlt (Nat.le_add_right _ _)
        · simp only [act, hr]
          exact window_input _ _

theorem act_moves {c : Circuit} (h : c.Listens) (a : Act) :
    Moves c (c.act a) a ∧ Framed c (c.act a) := by
  cases a with
  | publish e =>
      obtain ⟨r, hr, hwithin⟩ := h
      constructor
      · refine .published e (Bus.overflows_publish _ _) ?_
        have hlistening : (c.act (.publish e)).set.listener = .listening r := hr
        rw [position_eq hlistening, position_eq hr]
      · refine ⟨⟨r, hr, ?_⟩, rfl, rfl⟩
        rw [← Bus.length_overflows]
        simp only [act, Bus.overflows_publish, List.length_append, Bus.length_overflows]
        omega
  | hear => exact hear_moves h
  | take k =>
      obtain ⟨hframe, hbus, hposition⟩ := input_quiet (i := .take k) h (take_quiet c.set k)
      exact ⟨.took k hbus hposition, hframe⟩
  | handled k =>
      obtain ⟨hframe, hbus, hposition⟩ :=
        input_quiet (i := .handled k none) h (handled_quiet c.set k)
      exact ⟨.handled k hbus hposition, hframe⟩

end Circuit

/-! ## Turns of the listener's task -/

namespace Scenario

def World.circuit (w : World) : Circuit := { bus := w.bus, set := w.set }

theorem circuit_foldl_perform (effects : List Effect) (w : World) :
    (effects.foldl Hosting.perform w).circuit = effects.foldl Circuit.perform w.circuit := by
  induction effects generalizing w with
  | nil => rfl
  | cons effect rest ih =>
      rw [List.foldl_cons, List.foldl_cons, ih]
      cases effect <;> rfl

theorem circuit_input (w : World) (i : Input) :
    (Hosting.input w i).circuit = w.circuit.input i :=
  circuit_foldl_perform _ _

theorem after_hear (c : Circuit) (n : Nat) :
    (c.act .hear).after (fun _ => .hear) n = c.after (fun _ => .hear) (n + 1) := by
  induction n with
  | zero => rfl
  | succ n ih =>
      rw [Circuit.after, ih]
      rfl

theorem circuit_hear {w : World} {r next : Receiver} {receipt : Receipt}
    (listener : w.set.listener = .listening r) (received : w.bus.receive r = (receipt, next)) :
    (Hosting.input w (.hear receipt next)).circuit = w.circuit.act .hear := by
  rw [circuit_input]
  simp only [Circuit.act, World.circuit, listener, received]

theorem stopping_hear {w : World} (receipt : Receipt) (r : Receiver) :
    (Hosting.input w (.hear receipt r)).set.stopping = w.set.stopping := by
  have hset : (Hosting.input w (.hear receipt r)).set = (w.set.step (.hear receipt r)).1 := by
    change (Hosting.input w (.hear receipt r)).circuit.set = _
    rw [circuit_input, Circuit.set_input]
    rfl
  rw [hset, State.step, State.hear]
  cases w.set.listener with
  | listening _ => cases receipt <;> rfl
  | absent => rfl
  | ended => rfl

/-- In its turn the listener receives some number of times, and nothing else happens to the set and
the bus. -/
theorem circuit_passOn (fuel : Nat) (w : World) (going : w.set.stopping = false) :
    ∃ n, (Hosting.passOn fuel w).1.circuit = w.circuit.after (fun _ => .hear) n := by
  fun_induction Hosting.passOn fuel w with
  | case1 fuel w stopping =>
      have hstopping : w.set.stopping = true := stopping
      rw [going] at hstopping
      cases hstopping
  | case2 => exact ⟨0, rfl⟩
  | case3 => exact ⟨0, rfl⟩
  | case4 => exact ⟨0, rfl⟩
  | case5 fuel w going r listener lost next received =>
      exact ⟨1, circuit_hear listener received⟩
  | case6 w going r listener e next received =>
      exact ⟨1, circuit_hear listener received⟩
  | case7 w _ r listener e next received later fuel ih =>
      obtain ⟨n, hn⟩ := ih ((stopping_hear _ _).trans going)
      refine ⟨n + 1, ?_⟩
      rw [hn, circuit_hear listener received, after_hear]

end Scenario

end Subscribers

end Lifecycle
