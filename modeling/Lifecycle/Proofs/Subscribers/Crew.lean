import Lifecycle.Proofs.Subscribers.Frame
import Lifecycle.Proofs.Subscribers.Workers

/-!
# The crew of a subscriber set

A task of the set waits only for what is still to be told: a worker for its queue as long as events
can come in, the listener to be stopped, and whoever shuts the set down for a task that has not
ended.  `Crewed` says so between the turns of the tasks and while one of them has its turn.
-/

namespace Lifecycle.Subscribers

namespace Input

def isRequest : Input → Bool
  | emit _ | listen _ | release => true
  | _ => false

end Input

namespace State

variable {s t : State} {given : Input} {k : Nat} {effects : List Effect} {x y : Work}

/-! ## What a step tells -/

/-- What a task can wait for is told when it comes about. -/
structure Announces (s t : State) (effects : List Effect) : Prop where
  closing : s.isOpen = true → t.isOpen = false →
    ∀ k < s.channels.length, .signal (.queue k) ∈ effects
  stopping : s.stopping = false → t.stopping = true → .signal .stop ∈ effects
  stopped : s.stopping = true → t.stopping = true
  deafening : s.listener.isListening = true → t.listener.isListening = false →
    .signal .listenerOver ∈ effects
  ending : ∀ k, s.workOf k ≠ some .ended → t.workOf k = some .ended →
    .signal (.workerOver k) ∈ effects

theorem Announces.of_same (isOpen : t.isOpen = s.isOpen) (stopping : t.stopping = s.stopping)
    (listener : t.listener.isListening = s.listener.isListening)
    (ended : ∀ k, t.workOf k = some .ended → s.workOf k = some .ended) :
    Announces s t effects where
  closing h h' := by
    rw [isOpen, h] at h'
    cases h'
  stopping h h' := by
    rw [stopping, h] at h'
    cases h'
  stopped h := stopping.trans h
  deafening h h' := by
    rw [listener, h] at h'
    cases h'
  ending k h h' := absurd (ended k h') h

theorem workOf_fanOut (s : State) (e : Event) (k : Nat) : (s.fanOut e).1.workOf k = s.workOf k := by
  rw [workOf, workOf, fanOut, List.getElem?_map, Option.map_map]
  exact congrArg (Option.map · _) (funext fun c => work_offer c e)

theorem workOf_modifyChannel (s : State) (j k : Nat) (f : Channel → Channel) :
    (s.modifyChannel j f).workOf k =
      if j = k then s.channels[k]?.map fun c => (f c).work else s.workOf k := by
  rw [workOf, workOf, modifyChannel, List.getElem?_modify]
  cases s.channels[k]? <;> split <;> rfl

theorem announces_modifyChannel (s : State) (j : Nat) {f : Channel → Channel}
    (going : ∀ c, (f c).work ≠ .ended) : Announces s (s.modifyChannel j f) effects := by
  refine .of_same rfl rfl rfl fun k ended => ?_
  rw [workOf_modifyChannel] at ended
  split at ended
  · obtain ⟨c, _, hc⟩ := Option.map_eq_some_iff.mp ended
    exact absurd hc (going c)
  · exact ended

theorem workOf_request (request : given.isRequest = true) :
    (s.step given).1.workOf k = s.workOf k := by
  cases given with
  | emit e =>
      rw [step]
      split
      · exact workOf_fanOut s e k
      · rfl
  | listen r =>
      rw [step, listen]
      split <;> rfl
  | release =>
      rw [step, release]
      split <;> rfl
  | _ => cases request

theorem mem_farewell (closed : s.isOpen = false) (lt : k < s.channels.length) :
    .signal (.queue k) ∈ s.farewell := by
  rw [farewell, closed]
  exact List.mem_map.mpr ⟨k, List.mem_range.mpr lt, rfl⟩

theorem step_announces (s : State) (no_task : ∀ r, given ≠ .listen r) :
    Announces s (s.step given).1 (s.step given).2 := by
  have hsame : Announces s s [] := .of_same rfl rfl rfl fun _ h => h
  cases given with
  | emit e =>
      rw [step]
      split
      · exact .of_same rfl rfl rfl fun k h => (workOf_fanOut s e k).symm.trans h
      · exact hsame
  | listen r => exact absurd rfl (no_task r)
  | hear receipt r =>
      cases hlistener : s.listener with
      | absent | ended =>
          rw [step, hear, hlistener]
          exact hsame
      | listening r' =>
          have hopen : s.isOpen = true := by simp [isOpen, hlistener, Listener.isListening]
          have hlistening : s.listener.isListening = true := by rw [hlistener]; rfl
          have hmoved (t : State) (effects : List Effect) (stopping : t.stopping = s.stopping)
              (listener : t.listener = .listening r) (work : ∀ k, t.workOf k = s.workOf k) :
              Announces s t effects := by
            refine .of_same ?_ stopping ?_ fun k h => (work k).symm.trans h
            · rw [hopen, isOpen, listener]
              exact Bool.or_true _
            · rw [hlistening, listener]
              rfl
          rw [step, hear, hlistener]
          cases receipt with
          | event e => exact hmoved _ _ rfl rfl fun k => workOf_fanOut { s with listener := _ } e k
          | lagged | nothing => exact hmoved _ _ rfl rfl fun _ => rfl
  | stop =>
      refine ⟨fun h h' => ?_, fun _ _ => List.mem_singleton_self _, fun _ => rfl, fun h h' => ?_,
        fun k h h' => absurd h' h⟩
      · exact absurd (h.symm.trans h') (by simp)
      · exact absurd (h.symm.trans h') (by simp)
  | unlisten =>
      cases hlistener : s.listener with
      | absent | ended =>
          rw [step, unlisten, hlistener]
          exact hsame
      | listening r =>
          rw [step, unlisten, hlistener]
          refine ⟨fun _ closed k lt => ?_, fun h h' => ?_, id, fun _ _ => List.mem_cons_self,
            fun k h h' => absurd h' h⟩
          · exact List.mem_cons_of_mem _
              (mem_farewell (s := { s with listener := .ended }) closed lt)
          · exact absurd (h.symm.trans h') (by simp)
  | release =>
      rw [step, release]
      split
      · refine ⟨fun _ closed k lt => ?_, fun h h' => ?_, id, fun h h' => ?_,
          fun k h h' => absurd h' h⟩
        · exact mem_farewell (s := { s with held := false }) closed lt
        · exact absurd (h.symm.trans h') (by simp)
        · exact absurd (h.symm.trans h') (by simp)
      · exact hsame
  | take j =>
      simp only [step, take]
      split
      · exact hsame
      · split
        · exact announces_modifyChannel s j fun _ => (by simp)
        · exact hsame
  | handled j panic =>
      simp only [step, handled]
      split
      · exact hsame
      · split
        · exact announces_modifyChannel s j fun _ => (by simp)
        · exact hsame
  | finish j =>
      simp only [step, finish]
      split
      · exact hsame
      · split
        · refine ⟨fun h h' => absurd (h.symm.trans h') (by simp),
            fun h h' => absurd (h.symm.trans h') (by simp), id,
            fun h h' => absurd (h.symm.trans h') (by simp), fun k h h' => ?_⟩
          rw [workOf_modifyChannel] at h'
          split at h'
          · rename_i hj
            rw [hj]
            exact List.mem_singleton_self _
          · exact absurd h' h
        · exact hsame

theorem isListening_step (no_task : ∀ r, given ≠ .listen r) (going : given ≠ .unlisten) :
    (s.step given).1.listener.isListening = s.listener.isListening := by
  cases given with
  | emit e =>
      rw [step]
      split <;> rfl
  | listen r => exact absurd rfl (no_task r)
  | unlisten => exact absurd rfl going
  | hear receipt r =>
      cases hlistener : s.listener with
      | absent | ended => rw [step, hear, hlistener, hlistener]
      | listening _ =>
          rw [step, hear, hlistener]
          cases receipt <;> rfl
  | stop => rfl
  | release =>
      rw [step, release]
      split <;> rfl
  | take | handled | finish =>
      simp only [step, take, handled, finish]
      repeat' split
      all_goals rfl

theorem isListening_of_step (no_task : ∀ r, given ≠ .listen r)
    (after : (s.step given).1.listener.isListening = true) : s.listener.isListening = true := by
  by_cases going : given = .unlisten
  · subst going
    rw [step, unlisten] at after
    cases hlistener : s.listener with
    | listening => rfl
    | absent | ended =>
        simp only [hlistener] at after
        exact after
  · exact (isListening_step no_task going).symm.trans after

theorem startListener_not_mem_fanOut (s : State) (e : Event) :
    .startListener ∉ (s.fanOut e).2 := by
  simp only [fanOut, List.mem_flatMap, Channel.reply]
  rintro ⟨⟨c, k⟩, _, h⟩
  repeat' split at h
  all_goals simp at h

theorem startListener_not_mem_farewell (s : State) : .startListener ∉ s.farewell := by
  rw [farewell]
  split <;> simp

theorem startListener_not_mem_step (no_task : ∀ r, given ≠ .listen r) :
    .startListener ∉ (s.step given).2 := by
  cases given with
  | listen r => exact absurd rfl (no_task r)
  | unlisten =>
      rw [step, unlisten]
      split <;> simp [startListener_not_mem_farewell]
  | release =>
      rw [step, release]
      split <;> simp [startListener_not_mem_farewell]
  | emit e =>
      rw [step]
      split <;> simp [startListener_not_mem_fanOut]
  | hear receipt r =>
      rw [step, hear]
      split
      · cases receipt <;> simp [startListener_not_mem_fanOut]
      · simp
      · simp
  | stop => simp [step]
  | take | handled | finish =>
      simp only [step, take, handled, finish]
      repeat' split
      all_goals simp

def Pending (s : State) : Signal → Prop
  | .listenerOver => s.listener.isListening = true ∧ s.stopping = true
  | .workerOver k => s.isOpen = false ∧ ∃ x, s.workOf k = some x ∧ x ≠ .ended
  | .published | .stop | .queue _ => True

theorem pending_of_unfinished (closed : s.isOpen = false) (unfinished : s.unfinished? = some k) :
    s.Pending (.workerOver k) := by
  obtain ⟨hlt, hgoing, _⟩ := List.findIdx?_eq_some_iff_getElem.mp unfinished
  refine ⟨closed, s.channels[k].work, ?_, bne_iff_ne.mp hgoing⟩
  rw [workOf, List.getElem?_eq_getElem hlt]
  rfl

end State

def handedTo (k : Nat) (log : List (Nat × Event)) : List Event :=
  (log.filter fun h => h.1 = k).map Prod.snd

@[simp] theorem handedTo_append (k : Nat) (log more : List (Nat × Event)) :
    handedTo k (log ++ more) = handedTo k log ++ handedTo k more := by
  simp [handedTo]

namespace Hosting

open HasExecutor

variable {W σ τ η : Type} [Hosting W σ τ η] {u v w : W} {base k : Nat} {id : TaskId}
  {turn : Option TaskId} {log : List (Nat × Event)} {p : Program η} {x : Work}

/-! ## Where the tasks are -/

inductive Stands (w : W) (id : TaskId) (k : Nat) : Work → Prop
  | idle (job : Job w id (.worker k none))
      (awaits : id ∈ (executor w).ready ∨
        (state w).waiting k = [] ∧ (state w).isOpen = true ∧ Awaits w id (.queue k)) :
      Stands w id k .idle
  | handling {handler : η} (job : Job w id (.worker k (some handler))) : Stands w id k .handling
  | ended (absent : ∀ hand, ¬Job w id (.worker k hand)) : Stands w id k .ended

/-- The workers are the tasks from `base` on, at most one task listens, and one task may have its
turn. -/
structure Crewed (base : Nat) (turn : Option TaskId) (log : List (Nat × Event)) (w : W) : Prop where
  sound : (state w).Sound
  numbered : (executor w).Numbered
  length : base + (state w).channels.length ≤ (executor w).nextTask
  holds : ∀ id, turn = some id → (∃ p, Job w id p) ∧ (executor w).running = some id
  others : ∀ id p, Job w id p → turn ≠ some id → (executor w).running ≠ some id
  placed : ∀ id k hand, Job w id (.worker k hand) →
    id = base + k ∧ k < (state w).channels.length
  stands : ∀ k x, (state w).workOf k = some x → turn ≠ some (base + k) → Stands w (base + k) k x
  listener : ∀ id, Job w id .listener → turn ≠ some id →
    (state w).listener.isListening = true ∧
      (id ∈ (executor w).ready ∨ (state w).stopping = false ∧ Awaits w id .stop)
  listening : (state w).listener.isListening = true → ∃ id, Job w id .listener
  alone : ∀ id id', Job w id .listener → Job w id' .listener → id = id'
  apart : ∀ id, Job w id .listener → base + (state w).channels.length ≤ id
  pending : ∀ id s, s.isOver = true → Awaits w id s → (state w).Pending s
  told : ∀ k c, (state w).channels[k]? = some c → handedTo k log = c.accepted.take c.handed

/-! ## What leaves the crew alone -/

theorem Stands.spared (h : Stands w id k x) (spared : Spared id w v)
    (empty : Job w id (.worker k none) → (state w).waiting k = [] → (state w).isOpen = true →
      Awaits w id (.queue k) →
      id ∈ (executor v).ready ∨ (state v).waiting k = [] ∧ (state v).isOpen = true) :
    Stands v id k x := by
  cases h with
  | idle job awaits =>
      refine .idle ((spared.job _).mpr job) ?_
      rcases awaits with hready | ⟨hempty, hopen, hawaits⟩
      · exact .inl (spared.ready _ job hready)
      · rcases empty job hempty hopen hawaits with hready | ⟨hempty', hopen'⟩
        · exact .inl hready
        · exact (spared.awaits _ _ job hawaits).symm.imp_right (⟨hempty', hopen', ·⟩)
  | handling job => exact .handling ((spared.job _).mpr job)
  | ended absent => exact .ended fun hand job => absent hand ((spared.job _).mp job)

theorem workOf_isSome_iff {s : State} : (∃ x, s.workOf k = some x) ↔ k < s.channels.length := by
  rw [State.workOf, ← Option.isSome_iff_exists, Option.isSome_map]
  simp

theorem Crewed.moved [LawfulHosting W] [DecidableEq σ] {effects : List Effect}
    {later : List (Nat × Event)} (h : Crewed base turn log w) (tells : Tells effects w v)
    (announces : (state w).Announces (state v) effects) (sound : (state v).Sound)
    (length : (state v).channels.length = (state w).channels.length)
    (opens : (state v).isOpen = true → (state w).isOpen = true)
    (work : ∀ k, turn ≠ some (base + k) → (state v).workOf k = (state w).workOf k)
    (waiting : ∀ k, turn ≠ some (base + k) → (state w).waiting k = [] →
      (state v).waiting k = [] ∨ .signal (.queue k) ∈ effects)
    (hears : (state v).listener.isListening = true → (state w).listener.isListening = true)
    (listens : (state w).listener.isListening = true →
      (state v).listener.isListening = true ∨ ∃ id, turn = some id ∧ Job w id .listener)
    (told : ∀ k c, (state v).channels[k]? = some c → handedTo k later = c.accepted.take c.handed) :
    Crewed base turn later v := by
  have hjob {id : TaskId} {p : Program η} : Job v id p ↔ Job w id p := tells.job id p
  refine ⟨sound, tells.numbered h.numbered, length ▸ Nat.le_trans h.length tells.nextTask,
    fun id hturn => ?_, fun id p job other running => ?_,
    fun id k hand job => ?_, fun k x hwork other => ?_, fun id job other => ?_,
    fun hlistening => ?_, fun id id' job job' => h.alone id id' (hjob.mp job) (hjob.mp job'),
    fun id job => length ▸ h.apart id (hjob.mp job), fun id s isOver awaits => ?_, told⟩
  · obtain ⟨⟨p, job⟩, hrunning⟩ := h.holds id hturn
    exact ⟨⟨p, hjob.mpr job⟩, (tells.running id p job).mpr hrunning⟩
  · exact h.others id p (hjob.mp job) other ((tells.running id p (hjob.mp job)).mp running)
  · rw [length]
    exact h.placed id k hand (hjob.mp job)
  · rw [work k other] at hwork
    have hidle (p : Program η) (job : Job w (base + k) p) := h.others _ p job other
    refine (h.stands k x hwork other).spared (tells.spared hidle) fun job hempty hopen hawaits => ?_
    rcases waiting k other hempty with hempty' | htold
    · cases hopen' : (state v).isOpen with
      | true => exact .inr ⟨hempty', rfl⟩
      | false =>
          have hlt := workOf_isSome_iff.mp ⟨x, hwork⟩
          exact .inl (tells.woken _ _ _ job (hidle _ job)
            (announces.closing hopen hopen' k hlt) hawaits)
    · exact .inl (tells.woken _ _ _ job (hidle _ job) htold hawaits)
  · obtain ⟨hlistening, hwaits⟩ := h.listener id (hjob.mp job) other
    have hidle := h.others id _ (hjob.mp job) other
    constructor
    · rcases listens hlistening with hstill | ⟨id', hturn, job'⟩
      · exact hstill
      · exact absurd (h.alone id id' (hjob.mp job) job' ▸ hturn) other
    · rcases hwaits with hready | ⟨hgoing, hawaits⟩
      · exact .inl (tells.ready id _ (hjob.mp job) hready)
      · cases hstopping : (state v).stopping with
        | true =>
            exact .inl (tells.woken id _ _ (hjob.mp job) hidle
              (announces.stopping hgoing hstopping) hawaits)
        | false =>
            exact (tells.awaits id _ _ (hjob.mp job) hidle hawaits).symm.imp_right (⟨rfl, ·⟩)
  · obtain ⟨id, job⟩ := h.listening (hears hlistening)
    exact ⟨id, hjob.mpr job⟩
  · -- The signal has not been given, or else nobody would wait for it any more.
    have hpending := h.pending id s isOver (tells.lasting id s isOver awaits)
    have hsilent : .signal s ∉ effects := fun mem => tells.silent id s isOver mem awaits
    cases s with
    | listenerOver =>
        refine ⟨?_, announces.stopped hpending.2⟩
        cases hstill : (state v).listener.isListening with
        | true => rfl
        | false => exact absurd (announces.deafening hpending.1 hstill) hsilent
    | workerOver k =>
        obtain ⟨hclosed, x, hwork, hgoing⟩ := hpending
        have hlt := length ▸ workOf_isSome_iff.mp ⟨x, hwork⟩
        obtain ⟨y, hy⟩ := workOf_isSome_iff.mpr hlt
        refine ⟨?_, y, hy, ?_⟩
        · exact Bool.eq_false_iff.mpr fun hopen => absurd (hclosed.symm.trans (opens hopen)) nofun
        · rintro rfl
          refine hsilent (announces.ending k ?_ hy)
          rw [hwork]
          exact fun heq => hgoing (Option.some.inj heq)
    | published | stop | queue => trivial

theorem Crewed.frame [LawfulHosting W] [DecidableEq σ] (h : Crewed base turn log w)
    (frame : Frame w v) : Crewed base turn log v := by
  have htells : Tells [] w v := frame.toBeside.tells (by simp)
  have hstate := frame.state
  refine h.moved htells (.of_same ?_ ?_ ?_ ?_) ?_ ?_ ?_ ?_ ?_ ?_ ?_ ?_
  all_goals rw [hstate]
  · exact fun _ => id
  · exact h.sound
  · exact id
  · exact fun _ _ => rfl
  · exact fun _ _ => .inl
  · exact id
  · exact .inl
  · exact h.told

theorem Crewed.input [LawfulHosting W] [DecidableEq σ] {later : List (Nat × Event)}
    (h : Crewed base turn log w) (given : Input) (no_task : ∀ r, given ≠ .listen r)
    (own : ∀ k, given.worker? = some k → turn = some (base + k))
    (deaf : given = .unlisten → ∃ id, turn = some id ∧ Job w id .listener)
    (told : ∀ k, handedTo k later = handedTo k log ++ State.handed k ((state w).step given).2) :
    Crewed base turn later (input w given) := by
  have htells := tells_input w given (State.startListener_not_mem_step no_task)
  have hstate := state_input w given
  have hdeals := (state w).step_deals given
  have hfits : ∀ r, given = .listen r → (state w).held = true := fun r heq =>
    absurd heq (no_task r)
  have hbeside {k : Nat} {c : Channel} (other : turn ≠ some (base + k))
      (channel : (state w).channels[k]? = some c) :=
    hdeals.beside channel fun heq => other (own k heq)
  have hlisteners (going : given ≠ .unlisten) := State.isListening_step (s := state w) no_task going
  refine h.moved htells ?_ ?_ ?_ ?_ ?_ ?_ ?_ ?_ ?_
  all_goals rw [hstate]
  · exact State.step_announces _ no_task
  · exact h.sound.step hfits
  · exact hdeals.length
  · exact State.isOpen_of_step hfits
  · intro k other
    rw [State.workOf, State.workOf]
    cases hchannel : (state w).channels[k]? with
    | none =>
        have hlong := List.getElem?_eq_none_iff.mp hchannel
        rw [List.getElem?_eq_none (hdeals.length ▸ hlong)]
    | some c =>
        obtain ⟨d, hd, hwork, _⟩ := hbeside other hchannel
        rw [hd, Option.map_some, Option.map_some, hwork]
  · intro k other hempty
    rw [State.waiting] at hempty ⊢
    cases hchannel : (state w).channels[k]? with
    | none =>
        have hlong := List.getElem?_eq_none_iff.mp hchannel
        rw [List.getElem?_eq_none (hdeals.length ▸ hlong)]
        exact .inl rfl
    | some c =>
        rw [hchannel] at hempty
        obtain ⟨d, hd, _, hwaiting⟩ := hbeside other hchannel
        rw [hd]
        exact hwaiting.imp_left fun hsame => hsame.trans hempty
  · exact State.isListening_of_step no_task
  · intro hlistening
    by_cases hunlisten : given = .unlisten
    · exact .inr (deaf hunlisten)
    · exact .inl ((hlisteners hunlisten).trans hlistening)
  · intro k d hd
    obtain ⟨c, hc⟩ := hdeals.origin hd
    obtain ⟨d', hd', hbooks⟩ := hdeals.books hc (h.sound.within c (List.mem_of_getElem? hc))
    obtain rfl := Option.some.inj (hd'.symm.trans hd)
    rw [told, h.told k c hc, hbooks.handed]

theorem Crewed.plain [LawfulHosting W] [DecidableEq σ] (h : Crewed base turn log w) {given : Input}
    (own : given.worker? = none) (no_task : ∀ r, given ≠ .listen r)
    (deaf : given = .unlisten → ∃ id, turn = some id ∧ Job w id .listener) :
    Crewed base turn log (Hosting.input w given) := by
  refine h.input given no_task (fun j hj => ?_) deaf fun j => ?_
  · rw [own] at hj
    cases hj
  · rw [State.handed_step (fun i heq => ?_) j, List.append_nil]
    rw [heq] at own
    cases own

/-! ## Turns -/

theorem Crewed.passed {next : Option TaskId} (h : Crewed base turn log w) (id : TaskId)
    (keeps : (executor w).Keeps (some id) (executor v))
    (nextTask : (executor v).nextTask = (executor w).nextTask) (same : state v = state w)
    (lasting : ∀ id s, s.isOver = true → Awaits v id s → Awaits w id s ∨ (state w).Pending s)
    (before : ∀ other, turn = some other → other = id)
    (after : ∀ other, next = some other → other = id)
    (holds : next = some id → (∃ p, Job v id p) ∧ (executor v).running = some id)
    (idle : next ≠ some id → (executor v).running ≠ some id)
    (placed : ∀ k hand, Job v id (.worker k hand) → ∃ hand', Job w id (.worker k hand'))
    (stands : ∀ k x, id = base + k → (state w).workOf k = some x → next ≠ some id →
      Stands v id k x)
    (listener : Job v id .listener → Job w id .listener ∧ (next ≠ some id →
      (state w).listener.isListening = true ∧
        (id ∈ (executor v).ready ∨ (state w).stopping = false ∧ Awaits v id .stop)))
    (listening : (state w).listener.isListening = true → Job w id .listener →
      Job v id .listener) :
    Crewed base next log v := by
  have hturn {other : TaskId} (ne : other ≠ id) : turn ≠ some other := fun heq => ne (before _ heq)
  have hspared {other : TaskId} (ne : other ≠ id) : Spared other w v :=
    .of_keeps keeps (fun heq => ne (Option.some.inj heq).symm) fun p job =>
      h.others other p job (hturn ne)
  have hlistener {other : TaskId} (job : Job v other .listener) : Job w other .listener := by
    by_cases hid : other = id
    · exact hid ▸ (listener (hid ▸ job)).1
    · exact ((hspared hid).job _).mp job
  constructor
  · exact same ▸ h.sound
  · exact keeps.numbered h.numbered
  · rw [same, nextTask]
    exact h.length
  · intro other hnext
    obtain rfl := after other hnext
    exact holds hnext
  · intro other p job hnext running
    by_cases hid : other = id
    · exact idle (hid ▸ hnext) (hid ▸ running)
    · have hjob := ((hspared hid).job p).mp job
      have hother : some id ≠ some other := fun heq => hid (Option.some.inj heq).symm
      exact h.others other p hjob (hturn hid) ((keeps.running other hother hjob.present).mp running)
  · intro other k hand job
    rw [same]
    by_cases hid : other = id
    · subst hid
      obtain ⟨hand', hjob⟩ := placed k hand job
      exact h.placed other k hand' hjob
    · exact h.placed other k hand (((hspared hid).job _).mp job)
  · intro k x hwork hnext
    rw [same] at hwork
    by_cases hid : base + k = id
    · rw [hid] at hnext ⊢
      exact stands k x hid.symm hwork hnext
    · refine (h.stands k x hwork (hturn hid)).spared (hspared hid) fun _ hempty hopen _ => ?_
      rw [same]
      exact .inr ⟨hempty, hopen⟩
  · intro other job hnext
    rw [same]
    by_cases hid : other = id
    · subst hid
      exact (listener job).2 hnext
    · obtain ⟨hlistening, hwaits⟩ := h.listener other (hlistener job) (hturn hid)
      refine ⟨hlistening, ?_⟩
      rcases hwaits with hready | ⟨hgoing, hawaits⟩
      · exact .inl ((hspared hid).ready _ (hlistener job) hready)
      · exact ((hspared hid).awaits _ _ (hlistener job) hawaits).symm.imp_right (⟨hgoing, ·⟩)
  · intro hlistening
    rw [same] at hlistening
    obtain ⟨other, job⟩ := h.listening hlistening
    by_cases hid : other = id
    · exact ⟨id, listening hlistening (hid ▸ job)⟩
    · exact ⟨other, ((hspared hid).job _).mpr job⟩
  · exact fun other other' job job' => h.alone other other' (hlistener job) (hlistener job')
  · rw [same]
    exact fun other job => h.apart other (hlistener job)
  · intro other s isOver awaits
    rw [same]
    exact (lasting other s isOver awaits).elim (h.pending other s isOver) fun pending => pending
  · rw [same]
    exact h.told

theorem Crewed.call [LawfulHosting W] (h : Crewed base none log w)
    (rests : (executor w).running = none) (job : Job w id p) :
    Crewed base (some id) log (update w (·.call id)) := by
  have hexecutor : executor (update w (·.call id)) = (executor w).call id := executor_update w _
  have hjob {q : Program η} : Job (update w (·.call id)) id q ↔ Job w id q := by
    rw [Job, Job, hexecutor]
    rfl
  refine h.passed id ?_ ?_ (state_update w _) ?_ (by simp)
    (fun other => Eq.symm ∘ Option.some.inj)
    ?_ (fun hne => absurd rfl hne) (fun k hand job => ⟨hand, hjob.mp job⟩)
    (fun _ _ _ _ hne => absurd rfl hne)
    (fun job => ⟨hjob.mp job, fun hne => absurd rfl hne⟩) (fun _ => hjob.mpr)
  · rw [hexecutor]
    exact Executor.keeps_call rests job.present
  · rw [hexecutor]
    rfl
  · intro id s _ awaits
    rw [Awaits, hexecutor] at awaits
    exact .inl awaits
  · rw [hexecutor]
    exact fun _ => ⟨⟨p, hjob.mpr job⟩, rfl⟩

end Hosting

end Lifecycle.Subscribers
