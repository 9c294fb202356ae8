import Lifecycle.Proofs.Resource.Crew
import Lifecycle.Proofs.Resource.Rounds
import Lifecycle.Proofs.Supervisor.Cancellation

/-!
# Streams that are forwarded to a resource

A body goes on with its stream whenever its task has its turn.  Each turn is a number of rounds in
which the token is polled first, so that what is known of the rounds holds of a call with all its
turns.
-/

namespace Lifecycle.Supervisor.Scenario

open HasExecutor

/-! ## Calls -/

def outcomes (items : List StreamItem) : List (Outcome Value) :=
  items.filterMap fun
    | .outcome o => some o
    | .pause _ => none

def answers (now : Nat) (opened : List String) : List StreamItem → List Polled
  | [] => [.ended]
  | .pause p :: rest => if (p.poll now opened).isNone then answers now opened rest else [.pending]
  | .outcome o :: rest => .outcome o :: answers now opened rest

def Polled.round (p : Polled) : Round := { meanwhile := id, streamFirst := false, polled := p }

def turnRounds (others : World → World) (polls : List Polled) : List Round :=
  match polls.map Polled.round with
  | [] => []
  | r :: rest => { r with meanwhile := others } :: rest

/-- A body that forwards a stream goes on with it whenever its task has its turn.  Before each turn
anything may happen.  The answer tells whether it has gone through. -/
def call (i c : Nat) : World → List StreamItem → List (World → World) → World × Bool
  | w, _, [] => (w, false)
  | w, items, others :: later =>
      match forward (others w) i c items with
      | (v, .suspend (.emitAll rest) _ _) => call i c v rest later
      | (v, _) => (v, true)

def callRounds (i c : Nat) : World → List StreamItem → List (World → World) → List Round
  | _, _, [] => []
  | w, items, others :: later =>
      turnRounds others (answers (others w).executor.now (others w).opened items) ++
        match forward (others w) i c items with
        | (v, .suspend (.emitAll rest) _ _) => callRounds i c v rest later
        | _ => []

section Calls

variable {source : String} {key : Value} {i c : Nat} {v w : World} {items : List StreamItem}
  {others : World → World} {later : List (World → World)}

theorem clock_forwardItem (i c : Nat) (w : World) (item : StreamItem) :
    (forwardItem i c w item).1.executor.now = w.executor.now ∧
      (forwardItem i c w item).1.opened = w.opened ∧
      (forwardItem i c w item).1.supervisor = w.supervisor := by
  have hreported (e : Option TaskError) : (e.elim w (w.reportFor i)).executor = w.executor ∧
      (e.elim w (w.reportFor i)).opened = w.opened ∧
      (e.elim w (w.reportFor i)).supervisor = w.supervisor := by
    cases e with
    | none => exact ⟨rfl, rfl, rfl⟩
    | some e =>
        simp only [Option.elim, World.reportFor]
        split <;> exact ⟨rfl, rfl, rfl⟩
  cases item with
  | pause p => exact ⟨rfl, rfl, rfl⟩
  | outcome o =>
      obtain ⟨hexecutor, hopened, hsupervisor⟩ := hreported o.error?
      refine ⟨?_, hopened, hsupervisor⟩
      rw [← hexecutor]
      exact (Executor.keeps_signal _ (Signal.cell c)).now

inductive Turned (outs : List (Outcome Value)) (polls : List Polled) :
    World × Reaction Signal Item Stop → World × Course Signal Round Return → Prop
  | waits (v : World) (rest : List StreamItem) (signals : List Signal) (deadline : Option Nat)
      (lasts : ∀ p ∈ polls, p ≠ .ended)
      (split : outs = offered (polls.map Polled.round) ++ outcomes rest) :
      Turned outs polls (v, .suspend (.emitAll rest) signals deadline) (v, .completed)
  | returns (v : World) (ret : Return) (left : List (Outcome Value))
      (split : outs = offered (polls.map Polled.round) ++ left)
      (whole : ret = .ended → left = []) :
      Turned outs polls (v, .proceed) (v, .finished ret)

theorem Turned.cons {outs : List (Outcome Value)} {polls : List Polled}
    {turn : World × Reaction Signal Item Stop} {rounds : World × Course Signal Round Return}
    (h : Turned outs polls turn rounds) (o : Outcome Value) :
    Turned (o :: outs) (.outcome o :: polls) turn rounds := by
  cases h with
  | waits v rest signals deadline lasts split =>
      exact .waits v rest signals deadline (by simpa using lasts) (congrArg (o :: ·) split)
  | returns v ret left split whole => exact .returns v ret left (congrArg (o :: ·) split) whole

theorem outcomes_answers (now : Nat) (opened : List String) (items : List StreamItem) :
    ∃ left, outcomes items = offered ((answers now opened items).map Polled.round) ++ left := by
  induction items with
  | nil => exact ⟨[], rfl⟩
  | cons item rest ih =>
      obtain ⟨left, hleft⟩ := ih
      cases item with
      | pause p =>
          rw [answers]
          split
          · exact ⟨left, hleft⟩
          · exact ⟨outcomes rest, rfl⟩
      | outcome o => exact ⟨left, congrArg (o :: ·) hleft⟩

theorem forwardRound_round (uncancelled : w.supervisor.isCancelled i = false) (p : Polled) :
    forwardRound i c w p.round =
      match p with
      | .outcome o => ((forwardItem i c w (.outcome o)).1, .proceed)
      | .pending => (w, .proceed)
      | .ended => (w, .finish .ended) := by
  have hgoes : p.round.givesIn i w = false := by
    rw [Round.givesIn, uncancelled]
    rfl
  have hmeanwhile : p.round.meanwhile w = w := rfl
  simp only [forwardRound, hmeanwhile, hgoes]
  cases p <;> rfl

theorem turned_of_uncancelled (uncancelled : w.supervisor.isCancelled i = false)
    (items : List StreamItem) :
    Turned (outcomes items) (answers w.executor.now w.opened items) (forward w i c items)
      (runScript (forwardRound i c) w
        ((answers w.executor.now w.opened items).map Polled.round)) := by
  simp only [forward, uncancelled, Bool.false_eq_true, if_false]
  induction items generalizing w with
  | nil =>
      simp only [answers, List.map_cons, runScript, forwardRound_round uncancelled]
      exact .returns w .ended [] rfl fun _ => rfl
  | cons item rest ih =>
      cases item with
      | pause p =>
          cases hpoll : p.poll w.executor.now w.opened with
          | none =>
              simp only [runScript, forwardItem, Pause.react, hpoll, answers, Option.isNone_none,
                if_true]
              exact ih uncancelled
          | some wait =>
              obtain ⟨q, latches, deadline⟩ := wait
              simp only [runScript, forwardItem, Pause.react, hpoll, answers, Option.isNone_some,
                Bool.false_eq_true, if_false, List.map_cons, List.map_nil,
                forwardRound_round uncancelled]
              exact .waits w (.pause q :: rest) _ deadline (by simp) rfl
      | outcome o =>
          obtain ⟨hnow, hopened, hsupervisor⟩ := clock_forwardItem i c w (.outcome o)
          obtain ⟨v, hv⟩ : ∃ v, forwardItem i c w (.outcome o) = (v, .proceed) := ⟨_, rfl⟩
          rw [hv] at hnow hopened hsupervisor
          have hnext := ih (w := v) (by rwa [hsupervisor])
          simp only [answers, List.map_cons, runScript, forwardRound_round uncancelled, hv]
          rw [hnow, hopened] at hnext
          exact hnext.cons o

theorem answers_cons (now : Nat) (opened : List String) (items : List StreamItem) :
    ∃ p polls, answers now opened items = p :: polls := by
  induction items with
  | nil => exact ⟨_, _, rfl⟩
  | cons item rest ih =>
      cases item with
      | pause p =>
          rw [answers]
          split
          · exact ih
          · exact ⟨_, _, rfl⟩
      | outcome o => exact ⟨_, _, rfl⟩

theorem turned (i c : Nat) (w : World) (items : List StreamItem) :
    Turned (outcomes items) (answers w.executor.now w.opened items) (forward w i c items)
      (runScript (forwardRound i c) w
        ((answers w.executor.now w.opened items).map Polled.round)) := by
  cases hcancelled : w.supervisor.isCancelled i with
  | false => exact turned_of_uncancelled hcancelled items
  | true =>
      obtain ⟨left, hsplit⟩ := outcomes_answers w.executor.now w.opened items
      obtain ⟨p, polls, hanswers⟩ := answers_cons w.executor.now w.opened items
      have hgives : p.round.givesIn i w = true := by
        rw [Round.givesIn, hcancelled]
        rfl
      have hround : forwardRound i c w p.round = (w, .finish .cancelled) := if_pos hgives
      rw [hanswers] at hsplit ⊢
      simp only [forward, hcancelled, if_true, List.map_cons, runScript, hround]
      exact .returns w .cancelled left hsplit (by simp)

theorem offered_turnRounds (others : World → World) (polls : List Polled) :
    offered (turnRounds others polls) = offered (polls.map Polled.round) := by
  cases polls <;> rfl

theorem runScript_turnRounds (i c : Nat) (w : World) (others : World → World) (p : Polled)
    (polls : List Polled) :
    runScript (forwardRound i c) w (turnRounds others (p :: polls)) =
      runScript (forwardRound i c) (others w) ((p :: polls).map Polled.round) := rfl

structure Calls (i c : Nat) (w : World) (items : List StreamItem) (others : List (World → World)) :
    Prop where
  world : (call i c w items others).1 =
    (runScript (forwardRound i c) w (callRounds i c w items others)).1
  returns : (call i c w items others).2 = true ↔
    ∃ ret, (runScript (forwardRound i c) w (callRounds i c w items others)).2 = .finished ret
  stream : offered (callRounds i c w items others) <+: outcomes items
  whole : (runScript (forwardRound i c) w (callRounds i c w items others)).2 = .finished .ended →
    offered (callRounds i c w items others) = outcomes items

theorem calls (i c : Nat) (w : World) (items : List StreamItem) (others : List (World → World)) :
    Calls i c w items others := by
  induction others generalizing w items with
  | nil => exact ⟨rfl, ⟨nofun, nofun⟩, List.nil_prefix, nofun⟩
  | cons f later ih =>
      have hturned := turned i c (f w) items
      -- Each turn has a first round, so that what happens before it is not lost.
      obtain ⟨p, polls, hanswers⟩ := answers_cons (f w).executor.now (f w).opened items
      rw [hanswers, ← runScript_turnRounds] at hturned
      have hoffered := offered_turnRounds f (p :: polls)
      generalize hforward : forward (f w) i c items = turn at hturned
      generalize hrun : runScript (forwardRound i c) w (turnRounds f (p :: polls)) = result
        at hturned
      cases hturned with
      | waits v rest signals deadline lasts split =>
          have hcall : call i c w items (f :: later) = call i c v rest later := by
            rw [call, hforward]
          have hrounds : callRounds i c w items (f :: later) =
              turnRounds f (p :: polls) ++ callRounds i c v rest later := by
            rw [callRounds, hforward, hanswers]
          have hlasts : ∀ r ∈ turnRounds f (p :: polls), r.polled ≠ .ended := by
            simpa [turnRounds, Polled.round] using lasts
          obtain ⟨hworld, hreturns, hstream, hwhole⟩ := ih v rest
          constructor
          · rw [hcall, hrounds, runScript_append hrun, hworld]
          · rw [hcall, hrounds, runScript_append hrun, hreturns]
          · rw [hrounds, offered_append hlasts, hoffered, split]
            exact List.prefix_append_right_inj _ |>.mpr hstream
          · rw [hrounds, runScript_append hrun, offered_append hlasts, hoffered, split]
            exact fun finished => congrArg _ (hwhole finished)
      | returns v ret left split whole =>
          have hcall : call i c w items (f :: later) = (v, true) := by rw [call, hforward]
          have hrounds : callRounds i c w items (f :: later) = turnRounds f (p :: polls) := by
            rw [callRounds, hforward, hanswers, List.append_nil]
          constructor
          · rw [hcall, hrounds, hrun]
          · rw [hcall, hrounds, hrun]
            exact ⟨fun _ => ⟨ret, rfl⟩, fun _ => rfl⟩
          · rw [hrounds, hoffered, split]
            exact List.prefix_append _ _
          · rw [hrounds, hrun, hoffered, split]
            intro finished
            cases finished
            rw [whole rfl, List.append_nil]

theorem meanwhile_turnRounds {polls : List Polled} {r : Round}
    (mem : r ∈ turnRounds others polls) : r.meanwhile = others ∨ r.meanwhile = id := by
  cases polls with
  | nil => cases mem
  | cons p polls =>
      rcases List.mem_cons.mp mem with rfl | hlater
      · exact .inl rfl
      · obtain ⟨q, -, rfl⟩ := List.mem_map.mp hlater
        exact .inr rfl

theorem keeps_callRounds
    (keeps : ∀ f ∈ later, ∀ v, Tagged source key i v → Tagged source key i (f v)) (c : Nat)
    (w : World) (items : List StreamItem) :
    Keeps source key i (callRounds i c w items later) := by
  induction later generalizing w items with
  | nil => exact nofun
  | cons f later ih =>
      intro r hr u htagged
      rw [callRounds] at hr
      rcases List.mem_append.mp hr with hturn | hlater
      · rcases meanwhile_turnRounds hturn with heq | heq
        · rw [heq]
          exact keeps f List.mem_cons_self u htagged
        · rwa [heq]
      · generalize forward (f w) i c items = turn at hlater
        split at hlater
        · exact ih (fun g hg => keeps g (List.mem_cons_of_mem _ hg)) _ _ r hlater u htagged
        · cases hlater

theorem Forwarded.all {written : List (Outcome Value)} {others : List (World → World)}
    (h : Forwarded source key i c w (callRounds i c w items others) written)
    (returned : (call i c w items others).2 = true)
    (uncancelled : NeverCancelled i c w (callRounds i c w items others)) :
    written = outcomes items := by
  have hcalls := calls i c w items others
  obtain ⟨ret, hret⟩ := hcalls.returns.mp returned
  have hstand := h.stand
  rw [hret] at hstand
  cases hstand with
  | ends before r after split lasts last =>
      have hlast : ∃ r ∈ callRounds i c w items others, r.polled = .ended :=
        ⟨r, by simp [split], last⟩
      exact (h.whole hlast uncancelled).2.trans (hcalls.whole hret)
  | givesIn before r after split lasts cancelled =>
      rw [uncancelled before r after split] at cancelled
      cases cancelled

end Calls

/-! ## Requests in the meantime -/

theorem Tagged.input {source : String} {key : Value} {i : Nat} {w : World}
    (tagged : Tagged source key i w) (given : Input) :
    Tagged source key i (Hosting.input w given) := by
  constructor
  · rw [supervisor_input, State.name_step]
    exact tagged.name
  · rw [supervisor_input, State.keyOf_step_of_known (State.lt_of_keyOf tagged.key)]
    exact tagged.key

theorem spared_input (c : Nat) (w : World) (given : Input) :
    Spared c w (Hosting.input w given) := by
  have hall (effects : List Supervisor.Effect) (v : World) :
      Spared c v (effects.foldl Hosting.perform v) := by
    induction effects generalizing v with
    | nil => exact ⟨id, rfl, rfl⟩
    | cons e rest ih =>
        obtain ⟨hknown, hreports, hwrites⟩ := ih (Hosting.perform v e)
        cases e <;> exact ⟨hknown, hreports, hwrites⟩
  obtain ⟨hknown, hreports, hwrites⟩ := hall (w.supervisor.step given).2 (stepped w given)
  exact ⟨hknown, hreports, hwrites⟩

/-- Whatever the order is in which the token and the stream are polled, and whenever the task is
cancelled, a body forwards what its stream brings before it returns. -/
theorem streams_are_forwarded {source : String} {key : Value} {i : Nat} {w : World}
    (tagged : Tagged source key i w) (c : Nat) :
    (∀ rounds, Keeps source key i rounds → ∃ written, Forwarded source key i c w rounds written) ∧
      ∀ items others,
        (∀ f ∈ others, ∀ v, Tagged source key i v → Tagged source key i (f v)) →
        Calls i c w items others ∧
          ∃ written, Forwarded source key i c w (callRounds i c w items others) written ∧
            written <+: outcomes items ∧
            ((call i c w items others).2 = true →
              NeverCancelled i c w (callRounds i c w items others) → written = outcomes items) := by
  refine ⟨fun rounds keeps => forwards tagged keeps c, fun items others keeps => ?_⟩
  have hcalls := calls i c w items others
  obtain ⟨written, hforwarded⟩ := forwards tagged (keeps_callRounds keeps c w items) c
  exact ⟨hcalls, written, hforwarded, hforwarded.inOrder.trans hcalls.stream, hforwarded.all⟩

def loading : World :=
  let idle := ({ name := "loader", managed := true } : Setup).world
  Hosting.input (idle.launch (.number 7) "load" [] (some "data") none).1 (.begin 0)

def cancelLoad (w : World) : World := Hosting.input w (.cancel (.number 7))

/-- The task is cancelled before the third round, in which the stream is polled first. -/
def lateRounds : List Round :=
  [{ meanwhile := id, streamFirst := false, polled := .outcome (.success (.number 1)) },
    { meanwhile := id, streamFirst := false, polled := .pending },
    { meanwhile := cancelLoad, streamFirst := true,
      polled := .outcome (.error (.fail "late") none) },
    { meanwhile := id, streamFirst := false, polled := .outcome (.success (.number 2)) }]

theorem late_error_is_forwarded :
    Tagged "loader" (.number 7) 0 loading ∧ Keeps "loader" (.number 7) 0 lateRounds ∧
      (∀ r ∈ lateRounds, ∀ v, Spared 0 v (r.meanwhile v)) ∧
      ((runScript (forwardRound 0 0) loading lateRounds).1.cell 0).writes =
        [.success (.number 1), .error (.fail "late") none] ∧
      (runScript (forwardRound 0 0) loading lateRounds).1.reports =
        [{ source := "loader", key := some "7", failure := .task (.fail "late") }] ∧
      ∃ written, Forwarded "loader" (.number 7) 0 0 loading lateRounds written := by
  have htagged : Tagged "loader" (.number 7) 0 loading := ⟨by decide +kernel, by decide +kernel⟩
  have hmeanwhile : ∀ r ∈ lateRounds, r.meanwhile = id ∨ r.meanwhile = cancelLoad := by
    simp [lateRounds]
  have hkeeps : Keeps "loader" (.number 7) 0 lateRounds := by
    intro r hr v hv
    rcases hmeanwhile r hr with heq | heq
    · rwa [heq]
    · rw [heq]
      exact hv.input (.cancel (.number 7))
  refine ⟨htagged, hkeeps, fun r hr v => ?_, by decide +kernel, by decide +kernel,
    (streams_are_forwarded htagged 0).1 lateRounds hkeeps⟩
  rcases hmeanwhile r hr with heq | heq
  · rw [heq]
    exact ⟨id, rfl, rfl⟩
  · rw [heq]
    exact spared_input 0 v (.cancel (.number 7))

end Lifecycle.Supervisor.Scenario
