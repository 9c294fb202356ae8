import Lifecycle.Proofs.Debouncer.Turn
import Mathlib.Data.List.Chain

/-!
# The time between two starts

An action that is called for with a delay does not start until the delay has passed since the action
before it started.  This is so for any clock that is not set back: it may move on while tasks are in
the queue, and past the ends of their waits.  It is the task of the call that sees to it, and no
action starts between a call and the start of the action that is called for.
-/

namespace Lifecycle

def Span.Fits (d : Span) (start stop : Nat) : Prop := (ofMs start).ns + d.ns ≤ (ofMs stop).ns

namespace Span

variable {d : Span} {start called stop : Nat}

theorem ns_ofMs (n : Nat) : (ofMs n).ns = n * 1000000 := rfl

theorem Fits.later (h : d.Fits start called) (le : called ≤ stop) : d.Fits start stop := by
  simp only [Fits, ns_ofMs] at h ⊢
  exact Nat.le_trans h (Nat.mul_le_mul_right _ le)

theorem fits_of_ceilMs (first : start ≤ called) (room : called + d.ceilMs ≤ stop) :
    d.Fits start stop := by
  simp only [Fits, ns_ofMs, ceilMs] at room ⊢
  omega

end Span

namespace Debouncer

section Log

variable {α : Type} {log : List (Entry α)} {e : Entry α} {least : Span}

def Entry.call? : Entry α → Option Nat
  | scheduled number _ _ _ => some number
  | _ => none

theorem calls_append (silent : e.call? = none) :
    (log ++ [e]).filterMap Entry.call? = log.filterMap Entry.call? := by
  simp [silent]

def lastStart? (log : List (Entry α)) : Option Nat :=
  (log.filterMap Entry.start?).getLast?.map Prod.fst

theorem lastStart?_append (silent : e.start? = none) :
    lastStart? (log ++ [e]) = lastStart? log := by
  simp [lastStart?, silent]

theorem lastStart?_started (log : List (Entry α)) (number : Nat) (action : α) (time : Nat) :
    lastStart? (log ++ [.started number action time]) = some time := by
  simp [lastStart?, Entry.start?]

/-- Every start follows its call, and the start before it by the delay of the call. -/
def Spread (log : List (Entry α)) : Prop :=
  ∀ before number action time after, log = before ++ .started number action time :: after →
    ∃ called delay, .scheduled number action called delay ∈ before ∧
      ∀ p ∈ lastStart? before, delay.Fits p time

theorem Spread.snoc (spread : Spread log)
    (last : ∀ number action time, e = .started number action time →
      ∃ called delay, .scheduled number action called delay ∈ log ∧
        ∀ p ∈ lastStart? log, delay.Fits p time) : Spread (log ++ [e]) := by
  intro before number action time after hlog
  cases after using List.reverseRecOn with
  | nil =>
      obtain ⟨rfl, he⟩ := List.append_inj' hlog rfl
      exact last number action time (List.singleton_inj.mp he)
  | append_singleton more other =>
      rw [← List.cons_append, ← List.append_assoc] at hlog
      exact spread before number action time more (List.append_inj' hlog rfl).1

/-- Where no call has a shorter delay, all starts are as far apart. -/
theorem Spread.isChain (spread : Spread log)
    (long : ∀ number action called delay, .scheduled number action called delay ∈ log →
      least.ns ≤ delay.ns) :
    (log.filterMap Entry.start?).IsChain fun s t => least.Fits s.1 t.1 := by
  induction log using List.reverseRecOn with
  | nil => exact .nil
  | append_singleton log e ih =>
      have hfirst : Spread log := fun before number action time after hlog =>
        spread before number action time (after ++ [e]) (by simp [hlog])
      have hchain := ih hfirst fun number action called delay mem =>
        long number action called delay (List.mem_append_left _ mem)
      cases e with
      | scheduled | dropped =>
          simpa [List.filterMap_append, List.filterMap_cons, Entry.start?] using hchain
      | started number action time =>
          obtain ⟨called, delay, hmem, hfits⟩ := spread log number action time [] rfl
          have hleast := long number action called delay (List.mem_append_left _ hmem)
          rw [List.filterMap_append, List.isChain_append]
          refine ⟨hchain, .singleton _, fun s hs t ht => ?_⟩
          cases ht
          have hlast : s.1 ∈ lastStart? log := Option.mem_map_of_mem Prod.fst hs
          have hs := hfits s.1 hlast
          simp only [Span.Fits] at hs ⊢
          omega

theorem wait_or_fits {d : Debouncer} (lastStart : d.lastStart = lastStart? log) (now : Nat)
    (delay : Span) : d.wait now delay = delay ∨ ∀ p ∈ lastStart? log, delay.Fits p now := by
  have hwait := wait_eq (s := (⟨0, none, lastStart? log⟩ : Slot α)) lastStart now delay
  rw [hwait, Slot.wait]
  split
  · rename_i hleft
    rw [Bool.and_eq_true, Option.all_eq_true] at hleft
    refine .inr fun p hp => ?_
    simpa only [Span.Fits, decide_eq_true_eq] using hleft.2 p hp
  · exact .inl rfl

end Log

namespace Scenario

open HasExecutor

variable {given : DebounceSettings} {turn next : Option TaskId} {v w : World}
  {log : List (Entry Action)} {e : Entry Action} {id : TaskId} {job : Job} {action : Action}
  {now called time : Nat} {delay : Span}

/-! ## The task of a call -/

structure Waits (log : List (Entry Action)) (now : Nat) (job : Job) (action : Action)
    (called : Nat) (delay : Span) : Prop where
  call : .scheduled job.number action called delay ∈ log
  past : called ≤ now
  since : ∀ p ∈ lastStart? log, p ≤ called
  enough : job.wait = delay ∨ ∀ p ∈ lastStart? log, delay.Fits p called
  ends : ∀ deadline ∈ job.deadline, called + job.wait.ceilMs ≤ deadline

theorem Waits.later (waits : Waits log now job action called delay) (le : now ≤ time) :
    Waits log time job action called delay :=
  { waits with past := Nat.le_trans waits.past le }

theorem Waits.begun (waits : Waits log now job action called delay) {deadline : Nat}
    (course : job.deadline = none ∧ deadline = now + job.wait.ceilMs ∨
      job.deadline = some deadline) :
    Waits log now { job with deadline := some deadline } action called delay := by
  refine { waits with ends := fun other hother => ?_ }
  cases hother
  rcases course with ⟨_, hdeadline⟩ | hset
  · have hpast := waits.past
    simp only
    omega
  · exact waits.ends deadline hset

theorem Waits.fits (waits : Waits log now job action called delay)
    (ended : job.wait.ceilMs = 0 ∨ ∃ deadline, job.deadline = some deadline ∧ deadline ≤ now) :
    ∀ p ∈ lastStart? log, delay.Fits p now := by
  have hpast := waits.past
  have hover : called + job.wait.ceilMs ≤ now := by
    rcases ended with hnone | ⟨deadline, hset, hle⟩
    · omega
    · exact Nat.le_trans (waits.ends deadline hset) hle
  intro p hp
  rcases waits.enough with hwait | hfits
  · exact Span.fits_of_ceilMs (waits.since p hp) (hwait ▸ hover)
  · exact (hfits p hp).later hpast

/-- The task is to start the action, and nobody has told it to give up. -/
structure World.Expects (w : World) (turn : Option TaskId) (id : TaskId) (job : Job)
    (action : Action) : Prop where
  other : turn ≠ some id
  task : w.executor.task? id = some (.held job action.1 action.2)
  kept : job.number ∉ w.debouncer.discarded

structure Spaced (given : DebounceSettings) (turn : Option TaskId) (w : World)
    (log : List (Entry Action)) : Prop where
  ordered : w.executor.Ordered turn
  doomed : w.executor.doomed = []
  settings : w.debouncer.settings = given
  lastStart : w.debouncer.lastStart = lastStart? log
  past : ∀ p ∈ lastStart? log, p ≤ w.executor.now
  numbers : ∀ n ∈ log.filterMap Entry.call?, n ≤ w.debouncer.generation
  waits : ∀ id job action, w.Expects turn id job action →
    w.debouncer.pending = some job.number ∧
      ∃ called delay, Waits log w.executor.now job action called delay
  alone : ∀ id k job other action another, w.Expects turn id job action →
    w.Expects turn k other another → id = k
  starts : w.starts = (log.filterMap Entry.start?).map fun s => (s.1, s.2.1)
  distinct : (log.filterMap Entry.call?).Nodup
  spread : Spread log

namespace Spaced

variable {name : String} {body rest : List Item} {after : Option Span}

theorem fresh (given : DebounceSettings) : Spaced given none (World.fresh given) [] where
  ordered := ⟨⟨nofun, nofun⟩, nofun, rfl⟩
  doomed := rfl
  settings := rfl
  lastStart := rfl
  past := nofun
  numbers := nofun
  waits _ _ _ expects := nomatch expects.task
  alone _ _ _ _ _ _ expects := nomatch expects.task
  starts := rfl
  distinct := .nil
  spread _ _ _ _ _ hlog := by simp at hlog

theorem frame (spaced : Spaced given turn w log) (ordered : v.executor.Ordered next)
    (now : w.executor.now ≤ v.executor.now) (doomed : v.executor.doomed = [])
    (debouncer : v.debouncer = w.debouncer) (starts : v.starts = w.starts)
    (expects : ∀ id job action, v.Expects next id job action →
      ∃ before, w.Expects turn id before action ∧ before.number = job.number ∧
        ∀ called delay, Waits log w.executor.now before action called delay →
          Waits log v.executor.now job action called delay) : Spaced given next v log where
  ordered := ordered
  doomed := doomed
  settings := by rw [debouncer, spaced.settings]
  lastStart := by rw [debouncer, spaced.lastStart]
  past p hp := Nat.le_trans (spaced.past p hp) now
  numbers := by simpa only [debouncer] using spaced.numbers
  waits id job action hexpects := by
    obtain ⟨before, hbefore, hnumber, hwaits⟩ := expects id job action hexpects
    obtain ⟨hpending, called, delay, hcall⟩ := spaced.waits id before action hbefore
    exact ⟨by rw [debouncer, hpending, hnumber], called, delay, hwaits called delay hcall⟩
  alone id k job other action another hfirst hsecond := by
    obtain ⟨_, hid, _⟩ := expects id job action hfirst
    obtain ⟨_, hk, _⟩ := expects k other another hsecond
    exact spaced.alone id k _ _ _ _ hid hk
  starts := by rw [starts, spaced.starts]
  distinct := spaced.distinct
  spread := spaced.spread

theorem frame_same (spaced : Spaced given turn w log) (ordered : v.executor.Ordered next)
    (now : w.executor.now ≤ v.executor.now) (doomed : v.executor.doomed = [])
    (debouncer : v.debouncer = w.debouncer) (starts : v.starts = w.starts)
    (tasks : ∀ id job name body, next ≠ some id →
      v.executor.task? id = some (.held job name body) →
        turn ≠ some id ∧ w.executor.task? id = some (.held job name body)) :
    Spaced given next v log := by
  refine spaced.frame ordered now doomed debouncer starts fun id job action expects => ?_
  obtain ⟨hother, htask⟩ := tasks id job action.1 action.2 expects.other expects.task
  exact ⟨job, ⟨hother, htask, debouncer ▸ expects.kept⟩, rfl, fun _ _ waits => waits.later now⟩

theorem noted (spaced : Spaced given turn w log) {n : Note}
    (silent : (w.note n).starts = w.starts) : Spaced given turn (w.note n) log :=
  spaced.frame_same spaced.ordered (Nat.le_refl _) spaced.doomed rfl silent
    fun _ _ _ _ other task => ⟨other, task⟩

/-! ## Calls and drops -/

theorem not_expects_discard (spaced : Spaced given turn w log) (other : turn ≠ some id)
    (task : w.executor.task? id = some (.held job name body)) :
    job.number ∈ w.debouncer.discard.discarded := by
  by_cases hdiscarded : job.number ∈ w.debouncer.discarded
  · exact List.mem_append_left _ hdiscarded
  · have hpending := (spaced.waits id job (name, body) ⟨other, task, hdiscarded⟩).1
    exact List.mem_append_right _ (Option.mem_toList.mpr hpending)

theorem waits_newJob (spaced : Spaced given turn w log) (action : Action) (after : Option Span) :
    Waits (log ++ [.scheduled (w.debouncer.generation + 1) action w.executor.now
        (after.getD w.debouncer.settings.delay)]) w.executor.now (w.newJob after) action
      w.executor.now (after.getD w.debouncer.settings.delay) where
  call := List.mem_append_right _ List.mem_cons_self
  past := Nat.le_refl _
  since p hp := spaced.past p (by rwa [lastStart?_append rfl] at hp)
  enough := by
    rw [lastStart?_append rfl, wait_newJob]
    exact wait_or_fits spaced.lastStart _ _
  ends := nofun

theorem numbers_schedule (spaced : Spaced given turn w log) (action : Action) (time : Nat)
    (delay : Span) :
    let numbers := (log ++ [Entry.scheduled (w.debouncer.generation + 1) action time
      delay]).filterMap Entry.call?
    (∀ n ∈ numbers, n ≤ w.debouncer.generation + 1) ∧ numbers.Nodup := by
  have hnumbers := spaced.numbers
  simp only [List.filterMap_append, List.filterMap_cons, List.filterMap_nil, Entry.call?]
  constructor
  · intro n hn
    rcases List.mem_append.mp hn with hold | hnew
    · exact Nat.le_succ_of_le (hnumbers n hold)
    · exact Nat.le_of_eq (List.mem_singleton.mp hnew)
  · refine List.nodup_append.mpr ⟨spaced.distinct, List.pairwise_singleton _ _, ?_⟩
    intro n hn m hm heq
    have hle := hnumbers n hn
    rw [List.mem_singleton] at hm
    omega

theorem schedule (spaced : Spaced given turn w log) (name : String) (after : Option Span)
    (body : List Item) :
    Spaced given turn (w.schedule name after body)
      (log ++ [.scheduled (w.debouncer.generation + 1) (name, body) w.executor.now
        (after.getD w.debouncer.settings.delay)]) := by
  have hspares := spares_discard spaced.ordered
  have hordered := (spares_schedule spaced.ordered name after body).ordered
  have hnumbers := spaced.numbers_schedule (name, body) w.executor.now
    (after.getD w.debouncer.settings.delay)
  rw [schedule_eq] at hordered ⊢
  -- The task that is added is the only one that was not told to give up.
  have hnew {id : TaskId} {job : Job} {action : Action}
      (expects : World.Expects
        { w with
          debouncer := (w.debouncer.schedule w.executor.now
            (after.getD w.debouncer.settings.delay)).1
          executor := w.discard.executor.spawn (.held (w.newJob after) name body) }
        turn id job action) :
      id = w.discard.executor.nextTask ∧ job = w.newJob after ∧ action = (name, body) := by
    have htask := expects.task
    by_cases hid : id = w.discard.executor.nextTask
    · subst hid
      rw [Executor.task?_spawn hspares.ordered.toNumbered] at htask
      cases htask
      exact ⟨rfl, rfl, rfl⟩
    · rw [Executor.task?_spawn_ne _ hid, task?_discard] at htask
      exact absurd (spaced.not_expects_discard expects.other htask) expects.kept
  constructor
  · exact hordered
  · exact hspares.doomed.trans spaced.doomed
  · exact spaced.settings
  · rw [lastStart?_append rfl]
    exact spaced.lastStart
  · rw [lastStart?_append rfl]
    exact fun p hp => Nat.le_trans (spaced.past p hp) (Nat.le_of_eq hspares.now.symm)
  · exact hnumbers.1
  · intro id job action expects
    obtain ⟨_, rfl, rfl⟩ := hnew expects
    exact ⟨rfl, _, _, (spaced.waits_newJob _ after).later (Nat.le_of_eq hspares.now.symm)⟩
  · intro id k job other action another hfirst hsecond
    rw [(hnew hfirst).1, (hnew hsecond).1]
  · rw [starts_snoc log rfl]
    exact spaced.starts
  · exact hnumbers.2
  · exact spaced.spread.snoc nofun

theorem drop (spaced : Spaced given turn w log) :
    Spaced given turn { w.discard with alive := false } (log ++ [.dropped w.executor.now]) := by
  have hspares := spares_discard spaced.ordered
  rw [discard_eq]
  have hnone {id : TaskId} {job : Job} {action : Action}
      (expects : World.Expects
        { w with
          debouncer := w.debouncer.discard, executor := w.discard.executor, alive := false }
        turn id job action) : False :=
    expects.kept (spaced.not_expects_discard expects.other
      ((task?_discard w id).symm.trans expects.task))
  constructor
  · exact hspares.ordered
  · exact hspares.doomed.trans spaced.doomed
  · exact spaced.settings
  · rw [lastStart?_append rfl]
    exact spaced.lastStart
  · rw [lastStart?_append rfl]
    exact fun p hp => Nat.le_trans (spaced.past p hp) (Nat.le_of_eq hspares.now.symm)
  · rw [calls_append rfl]
    exact spaced.numbers
  · exact fun _ _ _ expects => (hnone expects).elim
  · exact fun _ _ _ _ _ _ expects => (hnone expects).elim
  · rw [starts_snoc log rfl]
    exact spaced.starts
  · rw [calls_append rfl]
    exact spaced.distinct
  · exact spaced.spread.snoc nofun

/-! ## Turns -/

theorem act (spaced : Spaced given turn w log) (item : Item) :
    Spaced given turn (Scenario.act w item).1 (log ++ w.asked item) := by
  cases item with
  | pause | panic =>
      rw [World.asked, List.append_nil]
      exact spaced
  | schedule name after body =>
      rw [Scenario.act, World.asked, World.called]
      split
      · apply (spaced.schedule name after body).noted
        rw [starts_note]
        exact List.append_nil _
      · rw [List.append_nil]
        apply spaced.noted
        rw [starts_note]
        exact List.append_nil _

theorem runAction (spaced : Spaced given turn w log) (name : String) (items : List Item) :
    Spaced given turn (Scenario.runAction w name items).1 (log ++ w.calls items) := by
  have hscript : Spaced given turn (runScript Scenario.act w items).1 (log ++ w.calls items) :=
    runScript_keeps World.asked (fun _ _ item spaced => spaced.act item) items log spaced
  rw [Scenario.runAction]
  generalize runScript Scenario.act w items = result at hscript ⊢
  obtain ⟨v, course⟩ := result
  cases course with
  | completed =>
      apply hscript.noted
      rw [starts_note]
      exact List.append_nil _
  | finished | suspended | gaveWay => exact hscript

theorem call (spaced : Spaced given none w log) (queued : id ∈ w.executor.ready) :
    Spaced given (some id) (update w (·.call id)) log :=
  spaced.frame_same (spaced.ordered.call queued) (Nat.le_refl _) spaced.doomed rfl rfl
    fun _ _ _ _ _ task => ⟨nofun, task⟩

theorem leave (spaced : Spaced given (some id) w log)
    (present : (w.executor.task? id).isSome = true) {rest : Rest Signal Task}
    (started : ∀ job name body, rest.program? ≠ some (.held job name body)) :
    Spaced given none (Hosted.leave w id rest) log := by
  have hkeeps := Executor.keeps_left spaced.ordered.turn rest
  have hexecutor : (Hosted.leave w id rest).executor = w.executor.left id rest :=
    Hosted.executor_leave w id rest
  have hdebouncer : (Hosted.leave w id rest).debouncer = w.debouncer := by cases rest <;> rfl
  have hstarts : (Hosted.leave w id rest).starts = w.starts := by cases rest <;> rfl
  refine spaced.frame_same ?_ ?_ ?_ hdebouncer hstarts ?_
  · rw [hexecutor]
    exact spaced.ordered.left rest
  · rw [hexecutor]
    exact Nat.le_of_eq hkeeps.now.symm
  · rw [hexecutor, List.eq_nil_iff_forall_not_mem]
    intro other hother
    simpa [spaced.doomed] using Executor.doomed_left _ rest id other hother
  · intro k job name body _ task
    rw [hexecutor] at task
    by_cases hk : some id = some k
    · cases hk
      rw [Executor.task?_left present] at task
      exact absurd task (started job name body)
    · exact ⟨hk, (hkeeps.task k hk).symm.trans task⟩

theorem leave_runAction (spaced : Spaced given (some id) w log)
    (present : (w.executor.task? id).isSome = true) (name : String) (items : List Item) :
    Spaced given none
      (Hosted.leave (Scenario.runAction w name items).1 id (Scenario.runAction w name items).2)
      (log ++ w.calls items) := by
  have hspares := spares_runAction spaced.ordered name items
  refine (spaced.runAction name items).leave ?_ (program?_runAction w name items)
  rwa [hspares.task id present]

theorem asleep (spaced : Spaced given none w log) (queued : id ∈ w.executor.ready)
    (task : w.executor.task? id = some (.held job name body)) {deadline : Nat}
    (course : job.deadline = none ∧ deadline = w.executor.now + job.wait.ceilMs ∨
      job.deadline = some deadline) (signals : List Signal) :
    Spaced given none (Hosted.leave (update w (·.call id)) id
      (.waiting (.held { job with deadline := some deadline } name body) signals
        (some deadline))) log := by
  have hordered := spaced.ordered.call queued
  have hkeeps := Executor.keeps_suspend hordered.turn
    (.held { job with deadline := some deadline } name body) signals (some deadline)
  have htask : Executor.task? _ id = _ := Executor.task?_suspend (x := w.executor.call id)
    (spaced.ordered.queued id queued) (.held { job with deadline := some deadline } name body)
    signals (some deadline)
  refine spaced.frame (hordered.suspend _ _ _) (Nat.le_refl _) spaced.doomed rfl rfl ?_
  intro k other action expects
  by_cases hk : some id = some k
  · cases hk
    cases htask.symm.trans expects.task
    exact ⟨job, ⟨nofun, task, expects.kept⟩, rfl, fun _ _ waits => waits.begun course⟩
  · exact ⟨other, ⟨nofun, (hkeeps.task k hk).symm.trans expects.task, expects.kept⟩, rfl,
      fun _ _ waits => waits⟩

theorem started (spaced : Spaced given none w log) (queued : id ∈ w.executor.ready)
    (expects : w.Expects none id job (name, body))
    (ended : job.wait.ceilMs = 0 ∨
      ∃ deadline, job.deadline = some deadline ∧ deadline ≤ w.executor.now) :
    Spaced given (some id)
      (World.note { update w (·.call id) with
        debouncer := { w.debouncer with pending := none, lastStart := some w.executor.now } }
        (.started name))
      (log ++ [.started job.number (name, body) w.executor.now]) := by
  have hnone {k : TaskId} {other : Job} {action : Action} (waiting : some id ≠ some k)
      (task : w.executor.task? k = some (.held other action.1 action.2))
      (kept : other.number ∉ w.debouncer.discarded) : False :=
    waiting (congrArg some (spaced.alone id k _ _ _ _ expects ⟨nofun, task, kept⟩))
  obtain ⟨_, called, delay, waits⟩ := spaced.waits id job (name, body) expects
  constructor
  · exact spaced.ordered.call queued
  · exact spaced.doomed
  · exact spaced.settings
  · rw [lastStart?_started]
    rfl
  · rw [lastStart?_started]
    intro p hp
    cases hp
    exact Nat.le_refl _
  · rw [calls_append rfl]
    exact spaced.numbers
  · exact fun _ _ _ h => (hnone h.other h.task h.kept).elim
  · exact fun _ _ _ _ _ _ h => (hnone h.other h.task h.kept).elim
  · rw [List.filterMap_append, List.map_append, ← spaced.starts, starts_note]
    rfl
  · rw [calls_append rfl]
    exact spaced.distinct
  · refine spaced.spread.snoc fun number action time he => ?_
    cases he
    exact ⟨called, delay, waits.call, waits.fits ended⟩

theorem taken (spaced : Spaced given none w log) (queued : id ∈ w.executor.ready) {t : Task}
    (task : w.executor.task? id = some t) :
    Spaced given none
      (Hosted.leave (Hosted.turn (update w (·.call id)) id t).1 id
        (Hosted.turn (update w (·.call id)) id t).2)
      (log ++ (update w (·.call id)).deeds t) := by
  have hpresent := spaced.ordered.queued id queued
  cases t with
  | acting name rest => exact (spaced.call queued).leave_runAction hpresent name rest
  | held job name body =>
      have hpolled := polled w.debouncer w.executor.now job
      have hkept : ∀ d, w.debouncer.poll w.executor.now job = .start d →
          job.number ∉ w.debouncer.discarded := by
        intro d hstart hdiscarded
        cases hstart.symm.trans (poll_of_discarded hdiscarded)
      simp only [Hosted.turn, World.deeds]
      change Debouncer.Polled _ _ _ ((update w (·.call id)).debouncer.poll
        (update w (·.call id)).executor.now job) at hpolled
      change ∀ d, (update w (·.call id)).debouncer.poll (update w (·.call id)).executor.now job =
        .start d → _ at hkept
      generalize (update w (·.call id)).debouncer.poll (update w (·.call id)).executor.now job =
        verdict at hpolled hkept ⊢
      cases hpolled with
      | dropped =>
          simp only [List.append_nil]
          exact (spaced.call queued).leave hpresent (by simp [Rest.program?])
      | sleep deadline _ course =>
          simp only [List.append_nil]
          exact spaced.asleep queued task course _
      | start ended =>
          rw [List.append_cons]
          exact (spaced.started queued ⟨by simp, task, hkept _ rfl⟩ ended).leave_runAction hpresent
            name body

theorem moveClock (spaced : Spaced given none w log) {target : Nat}
    (ahead : w.executor.now ≤ target) :
    Spaced given none (update w (·.moveClock target)) log := by
  have hexecutor : (update w (·.moveClock target)).executor = w.executor.moveClock target := rfl
  have hordered := spaced.ordered.moveClock target
  obtain ⟨more, hmore⟩ := w.executor.moveClock_eq target
  rw [hmore] at hexecutor hordered
  apply spaced.frame_same
  · rwa [hexecutor]
  · rwa [hexecutor]
  · rw [hexecutor]
    exact spaced.doomed
  · rfl
  · rfl
  · intro id job name body _ task
    rw [hexecutor] at task
    exact ⟨nofun, task⟩

theorem release (spaced : Spaced given none w log) (latch : String) :
    Spaced given none (w.perform (.release latch)) log := by
  have hspares := Executor.spares_signal spaced.ordered (.latch latch)
  refine spaced.frame_same hspares.ordered (Nat.le_of_eq hspares.now.symm)
    (hspares.doomed.trans spaced.doomed) rfl rfl fun id _ _ _ _ task => ⟨nofun, ?_⟩
  exact ((Executor.keeps_signal w.executor (.latch latch)).task id nofun).symm.trans task

end Spaced

/-! ## Runs -/

namespace World

def permits (w : World) : Act → Bool
  | .turn id => w.executor.ready.contains id
  | .clock target => decide (w.executor.now ≤ target)
  | _ => true

def timely (w : World) : List Act → Bool
  | [] => true
  | a :: rest => w.permits a && (w.perform a).timely rest

theorem timely_of_orderly {w : World} {acts : List Act} (orderly : w.orderly acts = true) :
    w.timely acts = true := by
  induction acts generalizing w with
  | nil => rfl
  | cons a rest ih =>
      rw [orderly_cons] at orderly
      rw [timely, ih orderly.2, Bool.and_true]
      cases a with
      | clock target => simp_all [admits, permits]
      | turn id => exact orderly.1
      | schedule | drop | release => rfl

end World

theorem Spaced.perform {a : Act} (spaced : Spaced given none w log)
    (permitted : w.permits a = true) : Spaced given none (w.perform a) (log ++ w.entries a) := by
  cases a with
  | schedule name after body =>
      rw [World.perform, World.take, World.entries, World.called]
      split
      · exact spaced.schedule name after body
      · rw [List.append_nil]
        exact spaced
  | drop =>
      rw [World.perform, World.take, World.entries]
      split
      · exact spaced.drop
      · rw [List.append_nil]
        exact spaced
  | release latch =>
      rw [World.entries, List.append_nil]
      exact spaced.release latch
  | turn id =>
      have hqueued : id ∈ w.executor.ready := List.contains_iff_mem.mp permitted
      obtain ⟨t, htask⟩ := Option.isSome_iff_exists.mp (spaced.ordered.queued id hqueued)
      have hspared : id ∉ w.executor.doomed := spaced.doomed ▸ List.not_mem_nil
      have hperform : w.perform (.turn id) = Hosted.leave _ id _ :=
        Hosted.runTurn_of_task hqueued htask hspared
      rw [hperform, World.entries, htask]
      exact spaced.taken hqueued htask
  | clock target =>
      rw [World.entries, List.append_nil]
      exact spaced.moveClock (of_decide_eq_true permitted)

theorem Spaced.run {acts : List Act} (spaced : Spaced given none w log)
    (timely : w.timely acts = true) : Spaced given none (w.after acts) (log ++ w.log acts) := by
  induction acts generalizing w log with
  | nil =>
      rw [World.log, List.append_nil]
      exact spaced
  | cons a rest ih =>
      rw [World.timely, Bool.and_eq_true] at timely
      rw [World.log, ← List.append_assoc]
      exact ih (spaced.perform timely.1) timely.2

/-- What users can rely on, whatever the clock does.  From the start of one action to that of the
next, the delay of the next one passes; where no call brings a delay of its own, all starts are as
far apart as the settings say. -/
structure Paced (given : DebounceSettings) (w : World) (log : List (Entry Action)) : Prop where
  recorded : w.starts = (log.filterMap Entry.start?).map fun s => (s.1, s.2.1)
  distinct : (log.filterMap Entry.call?).Nodup
  spaced : ∀ before number action time after,
    log = before ++ .started number action time :: after →
      ∃ called delay, .scheduled number action called delay ∈ before ∧
        ∀ p ∈ lastStart? before, delay.Fits p time
  plain : (∀ number action called delay, .scheduled number action called delay ∈ log →
      delay = given.delay) →
    w.starts.IsChain fun s t => given.delay.Fits s.1 t.1

theorem starts_keep_their_distance (settings : DebounceSettings) (acts : List Act)
    (timely : (World.fresh settings).timely acts = true) :
    Paced settings ((World.fresh settings).after acts) ((World.fresh settings).log acts) := by
  have spaced := (Spaced.fresh settings).run timely
  rw [List.nil_append] at spaced
  refine ⟨spaced.starts, spaced.distinct, spaced.spread, fun same => ?_⟩
  rw [spaced.starts, List.isChain_map]
  exact spaced.spread.isChain fun number action called delay mem =>
    Nat.le_of_eq (congrArg Span.ns (same number action called delay mem).symm)

/-- The first action asks for another one, which is due long before its task has its turn. -/
def overslept : List Act :=
  [.schedule "save" none [.schedule "index" none []], .turn 0, .turn 1, .clock 700, .turn 1,
    .schedule "upload" (some (.ofMs 40)) [], .clock 730, .schedule "report" (some (.ofMs 50)) [],
    .turn 3, .turn 2, .clock 800, .turn 3]

theorem paced_of_overslept :
    (World.fresh { leading := true }).timely overslept = true ∧
      ((World.fresh { leading := true }).after overslept).starts =
        [(0, "save"), (700, "index"), (800, "report")] ∧
      Paced { leading := true } ((World.fresh { leading := true }).after overslept)
        ((World.fresh { leading := true }).log overslept) := by
  have htimely : (World.fresh { leading := true }).timely overslept = true := by decide +kernel
  exact ⟨htimely, by decide +kernel,
    starts_keep_their_distance { leading := true } overslept htimely⟩

end Scenario

end Debouncer

end Lifecycle
