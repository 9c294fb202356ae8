import Lifecycle.Proofs.Relay.Beside

/-!
# What is asked of a relay in its world

Users, pumps and readers ask something of a relay one by one.  Each time the relay acts as it does
alone, its gate is asked for what belongs to that, and the rest of the world is left alone.
-/

namespace Lifecycle.Relay.Scenario

open HasExecutor
open Gate.Hosting (Frame Conduct)

variable {turn : Option TaskId} {u v w : World} {acts more : List Relay.Act}

/-! ## The relay of a world -/

theorem relay_tell (inboxes : List Nat) (w : World) :
    (Hosting.tell w inboxes).relay = w.relay := by
  induction inboxes generalizing w with
  | nil => rfl
  | cons k rest ih => exact ih _

theorem relay_discardJob (w : World) : (Gate.Hosting.discardJob w).relay = w.relay := by
  simp only [Gate.Hosting.discardJob]
  cases (Gate.Hosting.timer w).pending <;> rfl

theorem relay_perform (w : World) (e : Effect) : (Gate.Hosting.perform w e).relay = w.relay := by
  cases e with
  | replay cache k => exact relay_tell _ w
  | offer k e => exact relay_tell _ w
  | close k => exact relay_tell _ w
  | part k => exact relay_tell _ w
  | beginDrain grace epoch => exact relay_discardJob w
  | endDrain => exact relay_discardJob w
  | _ => rfl

theorem relay_performed (effects : List Effect) (w : World) :
    (effects.foldl Gate.Hosting.perform w).relay = w.relay := by
  induction effects generalizing w with
  | nil => rfl
  | cons e rest ih => exact (ih _).trans (relay_perform w e)

theorem relay_input (w : World) (i : Input) :
    (Gate.Hosting.input w i).relay = (w.relay.step i).1 := relay_performed _ _

theorem emit_eq (w : World) (i : Nat) (v : Value) : (Hosting.emit w i v).1 =
    Hosting.tell { w with relay := (w.relay.emit i v).1 }
      (if w.relay.gate.isCurrent i then w.relay.gate.roster.members else []) := rfl

theorem attach_eq (w : World) : (Hosting.attach w).1 =
    Gate.Hosting.input { w with relay := w.relay.addInbox } (.attach w.relay.inboxes.length) := rfl

theorem take_eq (w : World) (c : Consumer) :
    (Hosting.take w c).1 = { w with relay := w.relay.act (.take c.inbox) } := by
  have hrelay : Hosting.relay w = w.relay := rfl
  simp only [Hosting.take, State.act, State.modifyInbox, hrelay]
  cases hget : w.relay.inboxes[c.inbox]? with
  | none => rw [List.modify_eq_self (by simpa using hget)]
  | some b =>
      have hsame : w.relay.inboxes.modify c.inbox (fun b => b.take.2) =
          w.relay.inboxes.modify c.inbox fun _ => b.take.2 := by
        refine List.ext_getElem? fun k => ?_
        simp only [List.getElem?_modify]
        by_cases hk : c.inbox = k
        · subst hk
          simp [hget]
        · simp [hk]
      rw [hsame]
      rfl

/-- In the turn of a task, or between two turns, the relay has acted in this way. -/
structure Traces (turn : Option TaskId) (w : World) (acts : List Relay.Act) (v : World) : Prop
    extends Beside turn w v where
  relay : v.relay = w.relay.after acts
  orderly : w.relay.orderly acts = true
  civil : w.relay.civil acts = true

namespace Traces

theorem of_beside (beside : Beside turn w v) (relay : v.relay = w.relay) :
    Traces turn w [] v := ⟨beside, relay, rfl, rfl⟩

theorem refl (ordered : w.executor.Ordered turn) : Traces turn w [] w :=
  of_beside (.refl ordered) rfl

theorem trans (h₁ : Traces turn w acts v) (h₂ : Traces turn v more u) :
    Traces turn w (acts ++ more) u where
  toBeside := h₁.toBeside.trans h₂.toBeside
  relay := by rw [h₂.relay, h₁.relay, State.after_append]
  orderly := by
    rw [State.orderly_append, ← h₁.relay]
    exact ⟨h₁.orderly, h₂.orderly⟩
  civil := by
    rw [State.civil_append, ← h₁.relay]
    exact ⟨h₁.civil, h₂.civil⟩

theorem of_act {a : Relay.Act} (beside : Beside turn w v) (relay : v.relay = w.relay.act a)
    (admitted : w.relay.admits a = true) (civil : w.relay.isCivil a = true) :
    Traces turn w [a] v where
  toBeside := beside
  relay := relay
  orderly := by simp [State.orderly, admitted]
  civil := by simp [State.civil, civil]

theorem input (ordered : w.executor.Ordered turn) {i : Input}
    (admitted : w.relay.admits (.gate i) = true) (civil : w.relay.isCivil (.gate i) = true) :
    Traces turn w [.gate i] (Gate.Hosting.input w i) :=
  of_act (.input ordered i) (relay_input w i) admitted civil

end Traces

theorem conduct_trans {asks later : List Input} (h₁ : Conduct w asks v)
    (h₂ : Conduct v later u) : Conduct w (asks ++ later) u := by
  induction h₁ with
  | done => exact h₂
  | aside frame _ ih => exact .aside frame (ih h₂)
  | ask isRequest admitted _ ih => exact .ask isRequest admitted (ih h₂)

structure Does (turn : Option TaskId) (w : World) (acts : List Relay.Act) (v : World) : Prop
    extends Traces turn w acts v where
  conduct : ∃ asks, Conduct w asks v

namespace Does

theorem refl (ordered : w.executor.Ordered turn) : Does turn w [] w :=
  ⟨.refl ordered, [], .done w⟩

theorem trans (h₁ : Does turn w acts v) (h₂ : Does turn v more u) :
    Does turn w (acts ++ more) u where
  toTraces := h₁.toTraces.trans h₂.toTraces
  conduct := by
    obtain ⟨asks, hfirst⟩ := h₁.conduct
    obtain ⟨later, hsecond⟩ := h₂.conduct
    exact ⟨_, conduct_trans hfirst hsecond⟩

theorem withRelay (ordered : w.executor.Ordered turn) {a : Relay.Act}
    (gate : (w.relay.act a).gate = w.relay.gate) (admitted : w.relay.admits a = true)
    (civil : w.relay.isCivil a = true) : Does turn w [a] { w with relay := w.relay.act a } :=
  ⟨.of_act (.of_same ordered rfl rfl) rfl admitted civil, [],
    .of_frame (Gate.Hosting.frame_of_eq rfl gate rfl)⟩

theorem input (ordered : w.executor.Ordered turn) {i : Input} (isRequest : i.isRequest = true)
    (admitted : w.relay.admits (.gate i) = true) (civil : w.relay.isCivil (.gate i) = true) :
    Does turn w [.gate i] (Gate.Hosting.input w i) :=
  ⟨.input ordered admitted civil, [i],
    .ask isRequest (State.admits_occasion admitted rfl) (.done _)⟩

theorem complete (ordered : w.executor.Ordered turn) {i : Nat} (known : w.gate.isKnown i = true) :
    Does turn w [.gate (.complete i)] (Hosting.complete w i).1 :=
  input ordered rfl known rfl

theorem fail (ordered : w.executor.Ordered turn) {i : Nat} (known : w.gate.isKnown i = true)
    (e : ProducerError) : Does turn w [.gate (.fail i e)] (Hosting.fail w i e) :=
  input ordered rfl known rfl

theorem emit (ordered : w.executor.Ordered turn) {i : Nat} (known : w.gate.isKnown i = true)
    (v : Value) : Does turn w [.emit i v] (Hosting.emit w i v).1 := by
  have hstored : Beside turn w { w with relay := (w.relay.emit i v).1 } := .of_same ordered rfl rfl
  have hgate : (w.relay.act (.emit i v)).gate =
      (w.relay.gate.step w.relay.accepts (.update i (w.relay.keep v))).1 :=
    w.relay.gate_act (.emit i v)
  have hupdate : (Gate.Hosting.input w (.update i (w.relay.keep v))).relay.gate =
      (w.relay.act (.emit i v)).gate := by
    rw [hgate, relay_input]
    exact w.relay.gate_step _
  have hframe : Frame none (Gate.Hosting.input w (.update i (w.relay.keep v)))
      { w with relay := (w.relay.emit i v).1 } :=
    Gate.Hosting.frame_of_eq rfl hupdate.symm rfl
  rw [emit_eq]
  exact ⟨.of_act (hstored.trans (.tell _ hstored.ordered)) (relay_tell _ _) known rfl,
    [.update i (w.relay.keep v)], .ask rfl known (.of_frame (hframe.trans (frame_tell _ _)))⟩

theorem attach (ordered : w.executor.Ordered turn) (present : w.relay.gate.dropped = false) :
    Does turn w [.attach] (Hosting.attach w).1 := by
  have hstored : Beside turn w { w with relay := w.relay.addInbox } := .of_same ordered rfl rfl
  have hadmitted : w.relay.gate.admits (.attach w.relay.inboxes.length) = true := by
    simp [Gate.State.admits, present]
  have hframe : Frame none w { w with relay := w.relay.addInbox } :=
    Gate.Hosting.frame_of_eq rfl rfl rfl
  rw [attach_eq]
  exact ⟨.of_act (hstored.trans (.input hstored.ordered _)) (relay_input _ _) hadmitted rfl,
    [.attach w.relay.inboxes.length], .aside hframe (.ask rfl hadmitted (.done _))⟩

theorem abandon (ordered : w.executor.Ordered turn) {c : Consumer}
    (own : ∀ k, w.relay.gate.roster.find? c.id = some k → k = c.inbox) :
    Does turn w [.abandon c.inbox, .gate (.release c.id)] (Hosting.abandon w c) := by
  have hfirst : Does turn w [.abandon c.inbox]
      { w with relay := w.relay.act (.abandon c.inbox) } := withRelay ordered rfl rfl rfl
  refine hfirst.trans (input hfirst.ordered rfl rfl ?_)
  have hroster : (w.relay.act (.abandon c.inbox)).gate.roster = w.relay.gate.roster := rfl
  rw [State.isCivil, hroster]
  cases hfound : w.relay.gate.roster.find? c.id with
  | none => rfl
  | some k =>
      rw [own k hfound]
      simp only [Option.all_some, State.accepts, State.act, State.modifyInbox,
        List.getElem?_modify]
      cases w.relay.inboxes[c.inbox]? <;> simp [Inbox.abandon]

theorem take (ordered : w.executor.Ordered turn) (c : Consumer) :
    Does turn w [.take c.inbox] (Hosting.take w c).1 := by
  rw [take_eq]
  exact withRelay ordered rfl rfl rfl

theorem takeAll (ordered : w.executor.Ordered turn) (c : Consumer) :
    Does turn w [.takeAll c.inbox] (Hosting.takeAll w c).1 :=
  withRelay ordered rfl rfl rfl

end Does

end Lifecycle.Relay.Scenario
