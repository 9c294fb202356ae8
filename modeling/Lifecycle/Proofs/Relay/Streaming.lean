import Lifecycle.Proofs.Relay.Apart
import Lifecycle.Proofs.Relay.Asking
import Lifecycle.Proofs.Relay.Streams
import Lifecycle.Proofs.Script

/-!
# Runs of a relay that pumps streams

In each act a user takes a step, one of the tasks in the queue has its turn, or the clock moves,
when there is nothing else to do, and not beyond the next timer.  A pump whose session is over may
still come to its stream before it learns of that.  The log of a run tells what the sessions do with
their streams as long as they go on.
-/

namespace Lifecycle.Relay.Scenario

open HasExecutor

abbrev Log := List (Nat × Deed)

def deedsOf (i : Nat) (log : Log) : List Deed :=
  log.filterMap fun e => if e.1 = i then some e.2 else none

@[simp] theorem deedsOf_append (i : Nat) (a b : Log) :
    deedsOf i (a ++ b) = deedsOf i a ++ deedsOf i b := List.filterMap_append

theorem deedsOf_own (i : Nat) (deeds : List Deed) : deedsOf i (deeds.map (i, ·)) = deeds := by
  have hown : (fun e : Nat × Deed => if e.1 = i then some e.2 else none) ∘ (i, ·) = some :=
    funext fun d => if_pos rfl
  rw [deedsOf, List.filterMap_map, hown, List.filterMap_some]

theorem deedsOf_other {i j : Nat} (other : j ≠ i) (deeds : List Deed) :
    deedsOf i (deeds.map (j, ·)) = [] := by
  rw [deedsOf, List.filterMap_map]
  simp [other]

/-- A pump that is late has its turn although its session is over, and ends with it. -/
inductive Act where
  | step (s : Step)
  | turn (id : TaskId)
  | late (id : TaskId)
  | clock (target : Nat)

/-! ## What a pump does with its stream -/

def itemDeeds (i : Nat) (w : World) : StreamItem → List Deed
  | .value v => [.value v (w.relay.emit i v).2.isOk]
  | .failure e => [.failure e (w.gate.isCurrent i)]
  | .pause _ | .panic _ => []

def itemPanics (_ : World) : StreamItem → List Panic
  | .panic p => [p]
  | _ => []

def pumpDeeds (w : World) (i : Nat) (s : Stream) : List Deed :=
  if w.gate.isCancelled i then []
  else
    tally (pumpItem i) (itemDeeds i) w s.items ++
      match runScript (pumpItem i) w s.items, s.next? with
      | (v, .completed), none => [.ended (Hosting.complete v i).2]
      | _, _ => []

def pumpPanics (w : World) (i : Nat) (s : Stream) : List Panic :=
  if w.gate.isCancelled i then [] else tally (pumpItem i) itemPanics w s.items

namespace World

def record (w : World) : Task → Log
  | .pump i s => (pumpDeeds w i s).map (i, ·)
  | .gate (.activation i none) =>
      if w.gate.activationAwaits i = [] ∧
          Gate.Hosting.callsHook (Gate.Hosting.step w (.activate i)).2 = true then
        [(i, .opened w.starts)]
      else []
  | _ => []

/-! ## Runs -/

def perform (w : World) : Act → World
  | .step s => Gate.Hosting.reap (w.take s).1
  | .turn id => Hosted.runTurn w id
  | .late id =>
      match w.executor.task? id with
      | some (.pump i s) =>
          Gate.Hosting.reap (Hosted.leave (pull (update w (·.call id)) i s).1 id .ended)
      | _ => w
  | .clock target => update w (·.moveClock target)

def admits (w : World) : Act → Bool
  | .step (.advance _) | .step .settle => false
  | .step _ => true
  | .turn id => w.executor.ready.contains id
  | .late id =>
      w.executor.ready.contains id && match w.executor.task? id with
        | some (.pump i _) => w.gate.isCancelled i
        | _ => false
  | .clock target =>
      w.executor.ready.isEmpty && decide (w.executor.now ≤ target) &&
        w.executor.timers.all fun t => target ≤ t.deadline

def after (w : World) (acts : List Act) : World := acts.foldl perform w

theorem admits_late {w : World} {id : TaskId} (admitted : w.admits (.late id) = true) :
    id ∈ w.executor.ready ∧ ∃ i s, w.executor.task? id = some (.pump i s) ∧
      w.gate.isCancelled i = true := by
  simp only [admits, Bool.and_eq_true] at admitted
  refine ⟨List.contains_iff_mem.mp admitted.1, ?_⟩
  have hlate := admitted.2
  split at hlate
  · exact ⟨_, _, ‹_›, hlate⟩
  · cases hlate

def orderly (w : World) : List Act → Bool
  | [] => true
  | a :: rest => w.admits a && (w.perform a).orderly rest

theorem orderly_cons (w : World) (a : Act) (rest : List Act) :
    w.orderly (a :: rest) = true ↔ w.admits a = true ∧ (w.perform a).orderly rest = true := by
  simp [orderly]

theorem orderly_append (w : World) (acts later : List Act) :
    w.orderly (acts ++ later) = true ↔
      w.orderly acts = true ∧ (w.after acts).orderly later = true := by
  induction acts generalizing w with
  | nil => simp [orderly, after]
  | cons a rest ih =>
      rw [List.cons_append, orderly_cons, orderly_cons, ih, and_assoc]
      rfl

theorem after_append (w : World) (acts later : List Act) :
    w.after (acts ++ later) = (w.after acts).after later := List.foldl_append

def entries (w : World) : Act → Log
  | .turn id =>
      if w.executor.doomed.contains id then []
      else ((w.executor.task? id).map (update w (·.call id)).record).getD []
  | _ => []

def log (w : World) : List Act → Log
  | [] => []
  | a :: rest => w.entries a ++ (w.perform a).log rest

theorem log_append (w : World) (acts later : List Act) :
    w.log (acts ++ later) = w.log acts ++ (w.after acts).log later := by
  induction acts generalizing w with
  | nil => rfl
  | cons a rest ih =>
      rw [List.cons_append, log, log, ih, List.append_assoc]
      rfl

end World

/-! ## The turn of a pump -/

structure Serves (w : World) (i : Nat) : Prop where
  known : w.gate.isKnown i = true
  current : w.gate.isCurrent i = true
  uncancelled : w.gate.isCancelled i = false

section Emission

variable {w : World} {i : Nat}

theorem Serves.accepts (h : Serves w i) (x : Value) :
    Hosting.emit w i x = ((Hosting.emit w i x).1, .ok ()) := by
  have haccepted : (w.relay.emit i x).2 = .ok () := (emit_eq_ok_iff w.relay i x).mpr h.current
  exact Prod.ext rfl haccepted

theorem Serves.emit (h : Serves w i) (x : Value) : Serves (Hosting.emit w i x).1 i := by
  have hcurrent : w.relay.gate.isCurrent i = true := h.current
  have hgate : (Hosting.emit w i x).1.gate =
      { w.gate with cache := w.relay.keep x w.gate.cache } := by
    rw [emit_eq, World.gate, relay_tell]
    refine (w.relay.gate_act (.emit i x)).trans ?_
    simp only [State.occasion?, Option.elim_some, Gate.State.take, Gate.State.step, hcurrent,
      if_true]
    rfl
  exact ⟨by rw [hgate]; exact h.known, by rw [hgate]; exact h.current,
    by rw [hgate]; exact h.uncancelled⟩

end Emission

/-- How far the items of a portion are worked off in one turn while their session is current, and
the panic in them that it runs into. -/
inductive Worked (i : Nat) (turn : Option TaskId) (w : World) (items : List StreamItem) :
    World → Course Signal StreamItem Unit → List Deed → List Panic → Prop
  | through (v : World) (vs : List Value)
      (brings : items.filterMap StreamItem.brings? = vs.map .value)
      (does : Does turn w (vs.map (.emit i)) v) (serves : Serves v i) :
      Worked i turn w items v .completed (vs.map (.value · true)) []
  | waits (v : World) (vs : List Value) (p q : Pause) (rest : List StreamItem)
      (latches : List String) (deadline : Option Nat)
      (brings : items.filterMap StreamItem.brings? =
        vs.map .value ++ rest.filterMap StreamItem.brings?)
      (remains : rest <:+ items) (does : Does turn w (vs.map (.emit i)) v)
      (serves : Serves v i)
      (pending : p.poll v.executor.now v.opened = some (q, latches, deadline)) :
      Worked i turn w items v (.suspended (.pause q :: rest) (latches.map .latch) deadline)
        (vs.map (.value · true)) []
  | fails (v : World) (vs : List Value) (e : ProducerError) (more : List Relay.Item)
      (brings : items.filterMap StreamItem.brings? = vs.map .value ++ .failure e :: more)
      (does : Does turn w (vs.map (.emit i)) v) (serves : Serves v i) :
      Worked i turn w items (Hosting.fail v i e) (.finished ())
        (vs.map (.value · true) ++ [.failure e true]) []
  | panics (v : World) (vs : List Value) (p : Panic) (mem : .panic p ∈ items)
      (does : Does turn w (vs.map (.emit i)) v) (serves : Serves v i) :
      Worked i turn w items v (.finished ()) (vs.map (.value · true)) [p]

section Pump

variable {i : Nat} {turn : Option TaskId} {w v : World} {items rest : List StreamItem}
  {course : Course Signal StreamItem Unit} {deeds : List Deed} {broken : List Panic}

theorem Worked.skip {item : StreamItem} (h : Worked i turn w rest v course deeds broken)
    (nothing : item.brings? = none) : Worked i turn w (item :: rest) v course deeds broken := by
  have hbrings : (item :: rest).filterMap StreamItem.brings? =
      rest.filterMap StreamItem.brings? := List.filterMap_cons_none nothing
  cases h with
  | through _ vs brings does serves => exact .through v vs (hbrings.trans brings) does serves
  | waits _ vs p q rest latches deadline brings remains does serves pending =>
      exact .waits v vs p q rest latches deadline (hbrings.trans brings)
        (remains.trans (List.suffix_cons _ _)) does serves pending
  | fails v vs e more brings does serves =>
      exact .fails v vs e more (hbrings.trans brings) does serves
  | panics _ vs p mem does serves =>
      exact .panics v vs p (List.mem_cons_of_mem _ mem) does serves

theorem Worked.emitted {x : Value} (ordered : w.executor.Ordered turn)
    (known : w.gate.isKnown i = true)
    (h : Worked i turn (Hosting.emit w i x).1 rest v course deeds broken) :
    Worked i turn w (.value x :: rest) v course (.value x true :: deeds) broken := by
  have hbrings : (StreamItem.value x :: rest).filterMap StreamItem.brings? =
      .value x :: rest.filterMap StreamItem.brings? := List.filterMap_cons_some rfl
  have hfirst := Does.emit ordered known x
  cases h with
  | through _ vs brings does serves =>
      exact .through v (x :: vs) (by rw [hbrings, brings]; rfl) (hfirst.trans does) serves
  | waits _ vs p q rest latches deadline brings remains does serves pending =>
      exact .waits v (x :: vs) p q rest latches deadline (by rw [hbrings, brings]; rfl)
        (remains.trans (List.suffix_cons _ _)) (hfirst.trans does) serves pending
  | fails v vs e more brings does serves =>
      exact .fails v (x :: vs) e more (by rw [hbrings, brings]; rfl) (hfirst.trans does) serves
  | panics _ vs p mem does serves =>
      exact .panics v (x :: vs) p (List.mem_cons_of_mem _ mem) (hfirst.trans does) serves

theorem worked (ordered : w.executor.Ordered turn) (serves : Serves w i)
    (items : List StreamItem) :
    Worked i turn w items (runScript (pumpItem i) w items).1 (runScript (pumpItem i) w items).2
      (tally (pumpItem i) (itemDeeds i) w items) (tally (pumpItem i) itemPanics w items) := by
  induction items generalizing w with
  | nil => exact .through w [] rfl (.refl ordered) serves
  | cons item rest ih =>
      cases item with
      | pause p =>
          cases hpoll : p.poll w.executor.now w.opened with
          | none =>
              simp only [runScript, tally, pumpItem, Pause.react, hpoll]
              exact (ih ordered serves).skip rfl
          | some wait =>
              obtain ⟨q, latches, deadline⟩ := wait
              simp only [runScript, tally, pumpItem, Pause.react, hpoll]
              exact .waits w [] p q rest latches deadline rfl (List.suffix_cons _ _)
                (.refl ordered) serves hpoll
      | value x =>
          have hok : (w.relay.emit i x).2 = .ok () := congrArg Prod.snd (serves.accepts x)
          have hordered := (Does.emit ordered serves.known x).ordered
          have hworked := (ih hordered (serves.emit x)).emitted ordered serves.known
          simp only [runScript, tally, pumpItem, itemDeeds, hok]
          rw [serves.accepts x]
          exact hworked
      | failure e =>
          simp only [runScript, tally, pumpItem, itemDeeds, serves.current]
          exact .fails w [] e _ rfl (.refl ordered) serves
      | panic p => exact .panics w [] p List.mem_cons_self (.refl ordered) serves

end Pump

inductive Pumped (i : Nat) (turn : Option TaskId) (w : World) (s : Stream) :
    World → Rest Signal Task → List Deed → List Panic → Prop
  | waits (v : World) (vs : List Value) (p q : Pause) (rest : List StreamItem)
      (latches : List String) (deadline : Option Nat)
      (brings : s.items.filterMap StreamItem.brings? =
        vs.map .value ++ rest.filterMap StreamItem.brings?)
      (remains : rest <:+ s.items) (does : Does turn w (vs.map (.emit i)) v)
      (serves : Serves v i)
      (pending : p.poll v.executor.now v.opened = some (q, latches, deadline)) :
      Pumped i turn w s v
        (.waiting (.pump i { s with items := .pause q :: rest })
          (.gate (.gate (.sessionOver i)) :: latches.map .latch) deadline)
        (vs.map (.value · true)) []
  | advances (v : World) (vs : List Value) (t : Stream)
      (brings : s.items.filterMap StreamItem.brings? = vs.map .value) (next : s.next? = some t)
      (does : Does turn w (vs.map (.emit i)) v) (serves : Serves v i) :
      Pumped i turn w s v (.yielding (.pump i t)) (vs.map (.value · true)) []
  | completes (v : World) (vs : List Value)
      (brings : s.items.filterMap StreamItem.brings? = vs.map .value) (finished : s.next? = none)
      (does : Does turn w (vs.map (.emit i) ++ [.gate (.complete i)]) v) :
      Pumped i turn w s v .ended (vs.map (.value · true) ++ [.ended true]) []
  | fails (v : World) (vs : List Value) (e : ProducerError) (more : List Relay.Item)
      (brings : s.items.filterMap StreamItem.brings? = vs.map .value ++ .failure e :: more)
      (does : Does turn w (vs.map (.emit i) ++ [.gate (.fail i e)]) v) :
      Pumped i turn w s v .ended (vs.map (.value · true) ++ [.failure e true]) []
  | panics (v : World) (vs : List Value) (p : Panic) (mem : .panic p ∈ s.items)
      (does : Does turn w (vs.map (.emit i)) v) (serves : Serves v i) :
      Pumped i turn w s v .ended (vs.map (.value · true)) [p]

theorem pumped {i : Nat} {turn : Option TaskId} {w : World} {s : Stream}
    (ordered : w.executor.Ordered turn) (serves : Serves w i) :
    Pumped i turn w s (runPump w i s).1 (runPump w i s).2 (pumpDeeds w i s)
      (pumpPanics w i s) := by
  have hworked := worked ordered serves s.items
  simp only [runPump, pull, pumpDeeds, pumpPanics, serves.uncancelled, Bool.false_eq_true, if_false]
  generalize runScript (pumpItem i) w s.items = result at hworked ⊢
  obtain ⟨v, course⟩ := result
  generalize tally (pumpItem i) (itemDeeds i) w s.items = deeds at hworked ⊢
  generalize tally (pumpItem i) itemPanics w s.items = broken at hworked ⊢
  cases hworked with
  | through _ vs brings does serves =>
      cases hnext : s.next? with
      | none =>
          have hcompleted : (Hosting.complete v i).2 = true := serves.current
          simp only [hcompleted]
          exact .completes _ vs brings hnext (does.trans (.complete does.ordered serves.known))
      | some t =>
          rw [List.append_nil]
          exact .advances v vs t brings hnext does serves
  | waits _ vs p q rest latches deadline brings remains does serves pending =>
      rw [List.append_nil]
      simp only [waitInSession, serves.uncancelled, Bool.false_eq_true, if_false]
      exact .waits v vs p q rest latches deadline brings remains does serves pending
  | fails v vs e more brings does serves =>
      rw [List.append_nil]
      exact .fails _ vs e more brings (does.trans (.fail does.ordered serves.known e))
  | panics _ vs p mem does serves =>
      rw [List.append_nil]
      exact .panics v vs p mem does serves

theorem runPump_of_over {i : Nat} {w : World} (finished : w.gate.isCancelled i = true)
    (s : Stream) :
    runPump w i s = (w, .ended) ∧ pumpDeeds w i s = [] ∧ pumpPanics w i s = [] :=
  ⟨if_pos finished, if_pos finished, if_pos finished⟩

end Lifecycle.Relay.Scenario
