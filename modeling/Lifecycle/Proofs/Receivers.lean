import Lifecycle.Proofs.Bus

/-!
# Receivers

Anybody may publish on a bus, subscribe to it and take what its receivers get, in any order.  A
receiver goes on by one with each event that it gets and by what it lost with each lag, so what it
has got so far accounts for each number between the one it subscribed at and the one it stands at.
-/

namespace Lifecycle

def Receipt.lost : List Receipt → Nat
  | [] => 0
  | .lagged n :: rest => n + lost rest
  | .event _ :: rest | .nothing :: rest => lost rest

namespace Receipt

variable {receipts more : List Receipt}

@[simp]
theorem events_append : events (receipts ++ more) = events receipts ++ events more :=
  List.filterMap_append

@[simp]
theorem lost_append : lost (receipts ++ more) = lost receipts + lost more := by
  induction receipts with
  | nil => exact (Nat.zero_add _).symm
  | cons receipt rest ih =>
      cases receipt with
      | lagged n => rw [List.cons_append, lost, lost, ih, Nat.add_assoc]
      | event | nothing => exact ih

@[simp]
theorem events_event {e : Event} : events (.event e :: more) = e :: events more := rfl

@[simp]
theorem lost_event {e : Event} : lost (.event e :: more) = lost more := rfl

@[simp]
theorem events_lagged {n : Nat} : events (.lagged n :: more) = events more := rfl

@[simp]
theorem lost_lagged {n : Nat} : lost (.lagged n :: more) = n + lost more := rfl

@[simp]
theorem events_nothing : events (.nothing :: more) = events more := rfl

@[simp]
theorem lost_nothing : lost (.nothing :: more) = lost more := rfl

end Receipt

namespace Bus

open Receipt (events lost)

/-! ## Where the receipts lead -/

inductive Leads (bus : Bus) (p : Nat) : Receipt → Nat → Prop
  | event {e : Event} (next : bus.published[p]? = some e) : Leads bus p (.event e) (p + 1)
  | lagged {n : Nat} (some : 0 < n) (within : p + n ≤ bus.count) : Leads bus p (.lagged n) (p + n)
  | nothing : Leads bus p .nothing p

/-- From the place before the receipts to the one after them. -/
def Walk (bus : Bus) : Nat → List Receipt → Nat → Prop
  | p, [], q => p = q
  | p, receipt :: rest, q => ∃ m, Leads bus p receipt m ∧ Walk bus m rest q

variable {bus : Bus} {p q m : Nat} {receipts more : List Receipt} {receipt : Receipt}

theorem receive_leads (bus : Bus) (r : Receiver) :
    bus.Leads r.position (bus.receive r).1 (bus.receive r).2.position := by
  unfold receive
  split
  case isTrue behind =>
    have hwithin : bus.overwritten ≤ bus.count := Nat.sub_le _ _
    have hreached : r.position + (bus.overwritten - r.position) = bus.overwritten :=
      Nat.add_sub_cancel' (Nat.le_of_lt behind)
    have hlagged :=
      Leads.lagged (Nat.sub_pos_of_lt behind) (Nat.le_trans (Nat.le_of_eq hreached) hwithin)
    rwa [hreached] at hlagged
  case isFalse =>
    split
    case h_1 e next => exact .event next
    case h_2 => exact .nothing

theorem Leads.publish (leads : Leads bus p receipt q) (e : Event) :
    Leads (bus.publish e) p receipt q := by
  cases leads with
  | event next =>
      obtain ⟨hlt, _⟩ := Array.getElem?_eq_some_iff.mp next
      refine .event ?_
      rw [Bus.publish, Array.getElem?_push_lt (Nat.lt_of_lt_of_le hlt (Nat.le_refl _)), ← next,
        Array.getElem?_eq_getElem hlt]
  | lagged some within =>
      refine .lagged some (Nat.le_trans within ?_)
      rw [count, count, Bus.publish, Array.size_push]
      exact Nat.le_succ _
  | nothing => exact .nothing

theorem Leads.advance (leads : Leads bus p receipt q) :
    p + (events [receipt]).length + lost [receipt] = q := by
  cases leads <;> simp [events, lost]

theorem Leads.le_count (leads : Leads bus p receipt q) (within : p ≤ bus.count) :
    q ≤ bus.count := by
  cases leads with
  | event next =>
      obtain ⟨hlt, _⟩ := Array.getElem?_eq_some_iff.mp next
      exact hlt
  | lagged _ within => exact within
  | nothing => exact within

/-! ## Receipts one after another -/

namespace Walk

theorem append_iff :
    Walk bus p (receipts ++ more) q ↔ ∃ m, Walk bus p receipts m ∧ Walk bus m more q := by
  induction receipts generalizing p with
  | nil => simp [Walk]
  | cons receipt rest ih => grind [Walk]

theorem snoc (walk : Walk bus p receipts m) (leads : Leads bus m receipt q) :
    Walk bus p (receipts ++ [receipt]) q :=
  append_iff.mpr ⟨m, walk, q, leads, rfl⟩

theorem publish (walk : Walk bus p receipts q) (e : Event) : Walk (bus.publish e) p receipts q := by
  induction receipts generalizing p with
  | nil => exact walk
  | cons receipt rest ih =>
      obtain ⟨m, leads, walk⟩ := walk
      exact ⟨m, leads.publish e, ih walk⟩

theorem advance (walk : Walk bus p receipts q) :
    p + (events receipts).length + lost receipts = q := by
  induction receipts generalizing p with
  | nil => exact walk
  | cons receipt rest ih =>
      obtain ⟨m, leads, walk⟩ := walk
      rw [← List.singleton_append, Receipt.events_append, Receipt.lost_append, List.length_append,
        ← ih walk, ← leads.advance]
      omega

theorem le_count (walk : Walk bus p receipts q) (within : p ≤ bus.count) : q ≤ bus.count := by
  induction receipts generalizing p with
  | nil => exact walk ▸ within
  | cons receipt rest ih =>
      obtain ⟨m, leads, walk⟩ := walk
      exact ih walk (leads.le_count within)

theorem positive (walk : Walk bus p receipts q) {n : Nat} (mem : .lagged n ∈ receipts) : 0 < n := by
  obtain ⟨before, after, rfl⟩ := List.append_of_mem mem
  obtain ⟨m, _, _, leads, _⟩ := append_iff.mp walk
  cases leads
  assumption

theorem at_event {before after : List Receipt} {e : Event}
    (walk : Walk bus p (before ++ .event e :: after) q) :
    bus.published[p + (events before).length + lost before]? = some e := by
  obtain ⟨m, walk, _, leads, _⟩ := append_iff.mp walk
  cases leads with
  | event next => rwa [walk.advance]

end Walk

def Numbered (bus : Bus) : Prop :=
  ∀ ⦃p : Nat⦄ ⦃e : Event⦄, bus.published[p]? = some e → e.seq = p + 1

theorem Numbered.publish (numbered : Numbered bus) (e : Event) : Numbered (bus.publish e) := by
  intro p e' next
  rw [Bus.publish, Array.getElem?_push] at next
  split at next
  case isTrue last =>
    rw [← Option.some.inj next, last]
  case isFalse => exact numbered next

theorem Walk.ascending (walk : Walk bus p receipts q) (numbered : Numbered bus) :
    (∀ e ∈ events receipts, p < e.seq) ∧
      ((events receipts).map Event.seq).Pairwise (· < ·) := by
  induction receipts generalizing p with
  | nil => exact ⟨nofun, .nil⟩
  | cons receipt rest ih =>
      obtain ⟨m, leads, walk⟩ := walk
      obtain ⟨habove, hpairwise⟩ := ih walk
      cases leads with
      | event next =>
          have hseq := numbered next
          refine ⟨List.forall_mem_cons.mpr ⟨?_, fun e he => Nat.lt_of_succ_lt (habove e he)⟩, ?_⟩
          · exact hseq ▸ Nat.lt_succ_self p
          · refine List.pairwise_cons.mpr ⟨?_, hpairwise⟩
            rw [List.forall_mem_map, hseq]
            exact habove
      | lagged some _ =>
          exact ⟨fun e he => Nat.lt_of_le_of_lt (Nat.le_add_right p _) (habove e he), hpairwise⟩
      | nothing => exact ⟨habove, hpairwise⟩

/-! ## A bus in use -/

/-- What anybody with a clone of the bus or with one of its receivers does. -/
inductive Use where
  | publish (e : Event)
  | subscribe
  | receive (k : Nat)

structure Listener where
  receiver : Receiver
  got : List Receipt := []

structure Audience where
  bus : Bus
  listeners : List Listener := []

def Listener.receive (l : Listener) (bus : Bus) : Listener :=
  let (receipt, receiver) := bus.receive l.receiver
  { receiver, got := l.got ++ [receipt] }

namespace Audience

def use (a : Audience) : Use → Audience
  | .publish e => { a with bus := a.bus.publish e }
  | .subscribe => { a with listeners := a.listeners ++ [{ receiver := a.bus.subscribe }] }
  | .receive k => { a with listeners := a.listeners.modify k (·.receive a.bus) }

def after (a : Audience) (uses : List Use) : Audience := uses.foldl use a

end Audience

def Use.published (uses : List Use) : List Event :=
  uses.filterMap fun | .publish e => some e | _ => none

theorem bus_use (a : Audience) (u : Use) :
    (a.use u).bus = (Use.published [u]).foldl Bus.publish a.bus := by
  cases u <;> rfl

theorem bus_after (a : Audience) (uses : List Use) :
    (a.after uses).bus = (Use.published uses).foldl Bus.publish a.bus := by
  induction uses generalizing a with
  | nil => rfl
  | cons u rest ih =>
      rw [Audience.after, List.foldl_cons, ← Audience.after, ih, bus_use, ← List.foldl_append]
      cases u <;> rfl

theorem numbered_ofCapacity (capacity : Nat) : Numbered (.ofCapacity capacity) := by
  intro p e next
  simp [ofCapacity] at next

theorem Numbered.foldl (numbered : Numbered bus) (events : List Event) :
    Numbered (events.foldl Bus.publish bus) := by
  induction events generalizing bus with
  | nil => exact numbered
  | cons e rest ih => exact ih (numbered.publish e)

def Audience.Came (a : Audience) (k s : Nat) : Prop :=
  ∃ l, a.listeners[k]? = some l ∧ a.bus.Walk s l.got l.receiver.position ∧ s ≤ a.bus.count

namespace Audience.Came

variable {a : Audience} {k s : Nat}

theorem subscribe (a : Audience) : (a.use .subscribe).Came a.listeners.length a.bus.count :=
  ⟨_, List.getElem?_concat_length, rfl, Nat.le_refl _⟩

theorem use (came : a.Came k s) (u : Use) : (a.use u).Came k s := by
  obtain ⟨l, hl, walk, within⟩ := came
  cases u with
  | publish e =>
      refine ⟨l, hl, walk.publish e, Nat.le_trans within ?_⟩
      rw [count, count, Audience.use, Bus.publish, Array.size_push]
      exact Nat.le_succ _
  | subscribe =>
      exact ⟨l, List.getElem?_append_left (List.getElem?_eq_some_iff.mp hl).1 ▸ hl, walk, within⟩
  | receive j =>
      rw [Came, Audience.use, List.getElem?_modify, hl]
      by_cases same : j = k
      · subst same
        refine ⟨l.receive a.bus, ?_, walk.snoc (a.bus.receive_leads l.receiver), within⟩
        rw [Option.map_eq_map, Option.map_some, if_pos rfl]
      · refine ⟨l, ?_, walk, within⟩
        rw [Option.map_eq_map, Option.map_some, if_neg same]

theorem after (came : a.Came k s) (uses : List Use) : (a.after uses).Came k s := by
  induction uses generalizing a with
  | nil => exact came
  | cons u rest ih => exact ih (came.use u)

end Audience.Came

/-! ## What a receiver has got -/

/-- A receiver that subscribed after `s` events accounts for each number from there to where it
stands.  An event is the one that is next after what was got and lost before, and between two events
just those are missing that the lags between them tell. -/
structure Accounts (bus : Bus) (s : Nat) (l : Listener) : Prop where
  advanced : (events l.got).length + lost l.got = l.receiver.position - s
  within : s ≤ l.receiver.position ∧ l.receiver.position ≤ bus.count
  next : ∀ before e after, l.got = before ++ .event e :: after →
    e.seq = s + (events before).length + lost before + 1 ∧ bus.published[e.seq - 1]? = some e
  increasing : ((events l.got).map Event.seq).Pairwise (· < ·)
  gaps : ∀ before e between f after,
    l.got = before ++ .event e :: (between ++ .event f :: after) → events between = [] →
      f.seq = e.seq + lost between + 1
  lags : ∀ n, .lagged n ∈ l.got → 0 < n

theorem accounts_of_walk {s : Nat} {l : Listener} (walk : bus.Walk s l.got l.receiver.position)
    (within : s ≤ bus.count) (numbered : Numbered bus) : Accounts bus s l := by
  have hnext (before : List Receipt) (e : Event) (after : List Receipt)
      (split : l.got = before ++ .event e :: after) :
      e.seq = s + (events before).length + lost before + 1 ∧
        bus.published[e.seq - 1]? = some e := by
    have hat := (split ▸ walk).at_event
    have hseq := numbered hat
    exact ⟨hseq, by rwa [hseq, Nat.add_sub_cancel]⟩
  have hadvance := walk.advance
  exact {
    advanced := by omega
    within := ⟨by omega, walk.le_count within⟩
    next := hnext
    increasing := (walk.ascending numbered).2
    gaps := by
      intro before e between f after split none
      have he := (hnext before e _ split).1
      have hf := (hnext (before ++ .event e :: between) f after (by simpa using split)).1
      simp only [Receipt.events_append, Receipt.lost_append, Receipt.events_event,
        Receipt.lost_event, none, List.length_append, List.length_singleton] at hf
      omega
    lags := fun n mem => walk.positive mem }

/-- However a new bus is used, the events are numbered from one as they are published, and each
receiver accounts for what has been published since it subscribed. -/
theorem receivers_account_for_numbers (capacity : Nat) (uses : List Use) :
    let a := Audience.after ⟨.ofCapacity capacity, []⟩ uses
    a.bus.published.toList = (Use.published uses).mapIdx (fun n e => { e with seq := n + 1 }) ∧
      ∀ earlier later, uses = earlier ++ .subscribe :: later →
        let b := Audience.after ⟨.ofCapacity capacity, []⟩ earlier
        ∃ l, a.listeners[b.listeners.length]? = some l ∧
          Accounts a.bus (Use.published earlier).length l := by
  intro a
  have hbus : a.bus = (Use.published uses).foldl Bus.publish (.ofCapacity capacity) :=
    bus_after _ uses
  have hnumbered : Numbered a.bus := hbus ▸ (numbered_ofCapacity capacity).foldl _
  refine ⟨?_, fun earlier later split => ?_⟩
  · rw [hbus, published_foldl]
    simp [ofCapacity, count]
  · intro b
    have hcount : b.bus.count = (Use.published earlier).length := by
      rw [count, ← Array.length_toList, show b.bus = _ from bus_after _ earlier, published_foldl]
      simp [ofCapacity]
    have ha : a = (b.use .subscribe).after later := by
      rw [show a = Audience.after _ uses from rfl, split, Audience.after, List.foldl_append]
      rfl
    obtain ⟨l, hl, walk, within⟩ := (Audience.Came.subscribe b).after later
    rw [← ha] at hl walk within
    exact ⟨l, hl, hcount ▸ accounts_of_walk walk within hnumbered⟩

/-- Of five events on a bus that keeps two, the receiver came after the first, got the second, lost
the third and got the fourth. -/
theorem receivers_account_for_lost_number :
    let uses := [.publish (.of .consumerAttached), .subscribe,
      .publish (.of .producerActivating), .receive 0, .publish (.of .producerActive),
      .publish (.of .consumerDetached), .publish (.of .producerInactive), .receive 0,
      .receive 0]
    let a := Audience.after ⟨.ofCapacity 2, []⟩ uses
    ∃ l, a.listeners[0]? = some l ∧
      l.got = [.event { (Event.of .producerActivating) with seq := 2 }, .lagged 1,
        .event { (Event.of .consumerDetached) with seq := 4 }] ∧
      Accounts a.bus 1 l := by
  intro uses a
  obtain ⟨l, hl, haccounts⟩ :=
    (receivers_account_for_numbers 2 uses).2 (uses.take 1) (uses.drop 2) rfl
  have hgot : a.listeners[0]?.map Listener.got =
      some [.event { (Event.of .producerActivating) with seq := 2 }, .lagged 1,
        .event { (Event.of .consumerDetached) with seq := 4 }] := by decide +kernel
  refine ⟨l, hl, ?_, haccounts⟩
  rw [show a.listeners[0]? = some l from hl] at hgot
  exact Option.some.inj hgot

end Bus

end Lifecycle
