import Lifecycle.Proofs.Supervisor.Cancellation

/-!
# What is told of a task

`Change` lists what one input can do to a task and what is told by it: events about the task, the
call of its body, and the result that its launcher learns, in this order.  The history of a task
begins with its launch and goes on with such changes.  So the events about a task are a word of a
small grammar, its body is called exactly when an event says so, and the last event tells the
result.
-/

namespace Lifecycle.Supervisor

namespace Effect

def published? : Effect → Option Event
  | publish e => some e
  | _ => none

def resolved? : Effect → Option (Nat × Result)
  | resolve i r => some (i, r)
  | _ => none

/-- It is an event about the task, the call of its body, or its result. -/
def concerns (i : Nat) : Effect → Bool
  | publish e => e.taskId == some (State.taskId i)
  | callBody j | resolve j _ => j == i
  | signal _ | start _ | startRelease _ => false

end Effect

def Exit.kind : Exit → EventKind
  | completed => .taskFinished
  | cancelled => .taskCancelled
  | skipped => .taskSkipped

namespace State

variable {s : State} {given : Input} {key : Value} {i j : Nat} {name : String}
  {effects told more : List Effect} {stage next : Stage}

def published (effects : List Effect) : List Event := effects.filterMap Effect.published?

def about (i : Nat) (effects : List Effect) : List Effect := effects.filter (Effect.concerns i)

@[simp] theorem about_nil (i : Nat) : about i [] = [] := rfl

@[simp] theorem about_append (i : Nat) (effects more : List Effect) :
    about i (effects ++ more) = about i effects ++ about i more :=
  List.filter_append ..

@[simp] theorem published_append (effects more : List Effect) :
    published (effects ++ more) = published effects ++ published more :=
  List.filterMap_append

@[simp] theorem published_nil : published [] = [] := rfl

@[simp] theorem published_publish (e : Event) (rest : List Effect) :
    published (.publish e :: rest) = e :: published rest := rfl

@[simp] theorem published_callBody (i : Nat) (rest : List Effect) :
    published (.callBody i :: rest) = published rest := rfl

@[simp] theorem published_resolve (i : Nat) (r : Result) (rest : List Effect) :
    published (.resolve i r :: rest) = published rest := rfl

@[simp] theorem published_signal (signal : Signal) (rest : List Effect) :
    published (.signal signal :: rest) = published rest := rfl

@[simp] theorem published_start (i : Nat) (rest : List Effect) :
    published (.start i :: rest) = published rest := rfl

@[simp] theorem published_startRelease (i : Nat) (rest : List Effect) :
    published (.startRelease i :: rest) = published rest := rfl

def notice (name : String) (key : Value) (i : Nat) (kind : EventKind) : Event :=
  { kind, source := some name, key := some key.shown, taskId := some (taskId i) }

def lastNotice (name : String) (key : Value) (i : Nat) : Except TaskError Exit → Event
  | .ok e => notice name key i e.kind
  | .error e => { notice name key i .taskFailed with error := some e.message }

inductive Change (name : String) (key : Value) (i : Nat) : Stage → List Effect → Stage → Prop
  | none (stage : Stage) : Change name key i stage [] stage
  | asked {stage : Stage} (live : stage ≠ .ended) :
      Change name key i stage [.publish (notice name key i .taskCancelRequested)] stage
  | started : Change name key i .waiting
      [.publish (notice name key i .taskStarted), .callBody i] .running
  | skipped : Change name key i .waiting
      [.publish (lastNotice name key i (.ok .skipped)), .resolve i (.returned (.ok .skipped))]
      .ended
  | returned (r : Except TaskError Exit) (called : r ≠ .ok .skipped)
      (failure : ∀ e, r = .error e → e.isCancellation = false) : Change name key i .running
      [.publish (lastNotice name key i r), .resolve i (.returned r)] .ended
  | panicked (info : String) : Change name key i .running [.resolve i (.panicked info)] .ended
  | aborted {stage : Stage} (live : stage = .waiting ∨ stage = .running) :
      Change name key i stage [.resolve i .aborted] .ended
  | orphaned : Change name key i .waiting [.resolve i .aborted] .orphaned
  | released : Change name key i .orphaned [] .ended

/-! ## What one step tells -/

@[simp] theorem taskId_inj : taskId i = taskId j ↔ i = j := Nat.succ_inj

@[simp] theorem taskId_event (s : State) (kind : EventKind) (key : Value) (i : Nat) :
    (s.event kind key i).taskId = some (taskId i) := rfl

theorem event_eq (s : State) (kind : EventKind) (key : Value) (i : Nat) :
    s.event kind key i = notice s.name key i kind := rfl

@[simp] theorem taskId_notice (name : String) (key : Value) (i : Nat) (kind : EventKind) :
    (notice name key i kind).taskId = some (taskId i) := rfl

@[simp] theorem taskId_lastNotice (name : String) (key : Value) (i : Nat)
    (r : Except TaskError Exit) : (lastNotice name key i r).taskId = some (taskId i) := by
  cases r <;> rfl

theorem about_cancelTask (s : State) (i j : Nat) : about i (s.cancelTask j).2 = [] := by
  unfold cancelTask
  split <;> rfl

theorem about_close (s : State) (i : Nat) : about i s.close.2 = [] :=
  close_induct (P := fun _ effects => about i effects = []) rfl fun t effects j h => by
    rw [about_append, h, about_cancelTask]
    rfl

theorem about_request (s : State) (key : Value) (i j : Nat) :
    about i [.publish (s.event .taskCancelRequested key j)] =
      if j = i then [.publish (s.event .taskCancelRequested key i)] else [] := by
  by_cases hj : j = i <;> simp [about, Effect.concerns, hj]

theorem about_cancel (s : State) (key : Value) (i : Nat) :
    about i (s.cancel key).2 =
      if s.owner? key = some i then [.publish (s.event .taskCancelRequested key i)] else [] := by
  unfold cancel
  cases s.owner? key with
  | none => simp
  | some p => simp [about_cancelTask, about_request]

theorem launch_tells (s : State) (key : Value) :
    (s.launch key).2 =
      ((s.owner? key).elim [] fun p => ((s.extend key).cancelTask p).2 ++
        [.publish (s.event .taskCancelRequested key p)]) ++
      [.publish (s.event .taskLaunched key s.tasks.length), .start s.tasks.length] := by
  unfold launch extend
  cases s.owner? key with
  | none => rfl
  | some p => exact (List.append_assoc _ [_] _).symm

theorem about_launch (s : State) (key : Value) (i : Nat) :
    about i (s.launch key).2 =
      (if s.owner? key = some i then [.publish (s.event .taskCancelRequested key i)] else []) ++
        if s.tasks.length = i then [.publish (s.event .taskLaunched key i)] else [] := by
  have hlaunched : about i [.publish (s.event .taskLaunched key s.tasks.length),
      .start s.tasks.length] =
        if s.tasks.length = i then [.publish (s.event .taskLaunched key i)] else [] := by
    by_cases hi : s.tasks.length = i <;> simp [about, Effect.concerns, hi]
  rw [launch_tells, about_append, hlaunched]
  congr 1
  cases s.owner? key with
  | none => rfl
  | some p => simp [about_cancelTask, about_request]

theorem about_other (own : given.task? = some j) (other : j ≠ i) :
    about i (s.step given).2 = [] := by
  cases given with
  | launch | cancel | close => cases own
  | begin | finish | abort | panic | release =>
      cases own
      simp only [step, begin, finish, verdict, abort, panic, release]
      repeat' split
      all_goals simp [about, endTask, Effect.concerns, other]

section Own

variable {task : Task}

theorem stageOf_ended (found : s.tasks[i]? = some task) :
    (s.endTask i).1.stageOf i = some .ended := by
  rw [stageOf_endTask, if_pos rfl, stageOf, found]
  rfl

theorem stageOf_set (found : s.tasks[i]? = some task) (stage : Stage) :
    (s.setStage i stage).stageOf i = some stage := by
  rw [stageOf_setStage, if_pos rfl, stageOf, found]
  rfl

theorem stageOf_found (found : s.tasks[i]? = some task) : s.stageOf i = some task.stage := by
  simp [stageOf, found]

def Changes (s : State) (i : Nat) (task : Task) (r : State × List Effect) : Prop :=
  ∃ next, r.1.stageOf i = some next ∧
    Change s.name task.key i task.stage (about i r.2) next

theorem changes_none (found : s.tasks[i]? = some task) : Changes s i task (s, []) :=
  ⟨task.stage, stageOf_found found, .none _⟩

theorem changes_begin (found : s.tasks[i]? = some task) : Changes s i task (s.begin i) := by
  simp only [begin, found]
  split
  · rename_i hready
    have hwaiting : task.stage = .waiting := by simp_all
    split
    · refine ⟨.ended, stageOf_ended found, ?_⟩
      rw [hwaiting]
      simpa [about, endTask, Effect.concerns, event_eq, lastNotice, Exit.kind] using Change.skipped
    · refine ⟨.running, stageOf_set found .running, ?_⟩
      rw [hwaiting]
      simpa [about, Effect.concerns, event_eq] using Change.started
  · exact changes_none found

theorem verdict_notice (s : State) (i : Nat) (task : Task) (r : Except TaskError Unit) :
    (s.verdict i task r).1 = lastNotice s.name task.key i (s.verdict i task r).2 ∧
      (s.verdict i task r).2 ≠ .ok .skipped ∧
      ∀ e, (s.verdict i task r).2 = .error e → e.isCancellation = false := by
  cases r with
  | ok u => cases h : task.cancelled <;> simp [verdict, h, lastNotice, Exit.kind, event, notice]
  | error e =>
      cases h : e.isCancellation <;>
        simp [verdict, h, lastNotice, Exit.kind, event, notice]

theorem changes_finish (found : s.tasks[i]? = some task) (r : Except TaskError Unit) :
    Changes s i task (s.finish i r) := by
  simp only [finish, found]
  split
  · rename_i hrunning
    obtain ⟨hnotice, hcalled, hfailure⟩ := s.verdict_notice i task r
    refine ⟨.ended, stageOf_ended found, ?_⟩
    rw [eq_of_beq hrunning, hnotice]
    simpa [about, endTask, Effect.concerns] using .returned _ hcalled hfailure
  · exact changes_none found

theorem changes_panic (found : s.tasks[i]? = some task) (info : String) :
    Changes s i task (s.panic i info) := by
  simp only [panic, found]
  split
  · rename_i hrunning
    refine ⟨.ended, stageOf_ended found, ?_⟩
    rw [eq_of_beq hrunning]
    simpa [about, endTask, Effect.concerns] using Change.panicked info
  · exact changes_none found

theorem changes_abort (found : s.tasks[i]? = some task) : Changes s i task (s.abort i) := by
  simp only [abort, found]
  split
  · rename_i hwaiting
    split
    · refine ⟨.ended, stageOf_ended found, ?_⟩
      simpa [about, endTask, Effect.concerns] using Change.aborted (.inl hwaiting)
    · refine ⟨.orphaned, stageOf_set found .orphaned, ?_⟩
      rw [hwaiting]
      simpa [about, Effect.concerns] using Change.orphaned
  · rename_i hrunning
    refine ⟨.ended, stageOf_ended found, ?_⟩
    simpa [about, endTask, Effect.concerns] using Change.aborted (.inr hrunning)
  · exact changes_none found
  · exact changes_none found

theorem changes_release (found : s.tasks[i]? = some task) : Changes s i task (s.release i) := by
  simp only [release, found]
  split
  · rename_i hready
    have horphaned : task.stage = .orphaned := by simp_all
    refine ⟨.ended, stageOf_ended found, ?_⟩
    rw [horphaned]
    exact .released
  · exact changes_none found

end Own

theorem Chained.changes (h : Chained s) {task : Task} (found : s.tasks[i]? = some task)
    (given : Input) : Changes s i task (s.step given) := by
  have hkey : s.keyOf i = some task.key := by rw [keyOf, found]; rfl
  have hknown : i < s.tasks.length := lt_of_keyOf hkey
  -- A request reaches the task if it owns the key; then it has not ended.
  have hrequest (key : Value) : Change s.name task.key i task.stage
      (if s.owner? key = some i then [.publish (s.event .taskCancelRequested key i)] else [])
      task.stage := by
    split
    · rename_i howner
      obtain ⟨howned, hlive, _⟩ := h.owner key i howner
      rw [hkey, Option.some.injEq] at howned
      rw [stageOf_found found, ne_eq, Option.some.injEq] at hlive
      rw [howned]
      exact .asked hlive
    · exact .none _
  by_cases hown : given.task? = some i
  · cases given with
    | launch | cancel | close => cases hown
    | begin => cases hown; exact changes_begin found
    | finish i r => cases hown; exact changes_finish found r
    | panic i info => cases hown; exact changes_panic found info
    | abort => cases hown; exact changes_abort found
    | release => cases hown; exact changes_release found
  · refine ⟨task.stage, (stageOf_step hown hknown).trans (stageOf_found found), ?_⟩
    cases given with
    | launch key =>
        rw [State.step, about_launch, if_neg (Nat.ne_of_gt hknown), List.append_nil]
        exact hrequest key
    | cancel key =>
        rw [State.step, about_cancel]
        exact hrequest key
    | close =>
        rw [State.step, about_close]
        exact .none _
    | begin | finish | panic | abort | release =>
        rw [about_other rfl fun heq => hown (by rw [← heq]; rfl)]
        exact .none _

/-! ## Histories -/

/-- What is told of a task until it has come to a stage. -/
inductive History (name : String) (key : Value) (i : Nat) : Stage → List Effect → Prop
  | launched : History name key i .waiting [.publish (notice name key i .taskLaunched)]
  | next {stage next : Stage} {told more : List Effect} (before : History name key i stage told)
      (change : Change name key i stage more next) : History name key i next (told ++ more)

structure Chronicled (name : String) (s : State) (effects : List Effect) : Prop where
  named : s.name = name
  known : ∀ i key stage, s.keyOf i = some key → s.stageOf i = some stage →
    History name key i stage (about i effects)
  unknown : ∀ i, s.tasks.length ≤ i → about i effects = []

theorem chronicled_fresh (name : String) : Chronicled name { name } [] where
  named := rfl
  known _ _ _ := nofun
  unknown _ _ := rfl

theorem Chained.about_unknown (h : Chained s) (unknown : (s.step given).1.tasks.length ≤ i) :
    about i (s.step given).2 = [] := by
  rw [tasks_length_step] at unknown
  have howner (key : Value) : s.owner? key ≠ some i := fun howner => by
    have := lt_of_keyOf (h.owner key i howner).1
    omega
  cases given with
  | launch key =>
      rw [State.step, about_launch, if_neg (howner key), if_neg]
      · rfl
      · rintro rfl
        simp only [Input.launched?, Option.toList_some, List.length_singleton] at unknown
        omega
  | cancel key => rw [State.step, about_cancel, if_neg (howner key)]
  | close => exact about_close s i
  | begin j | finish j | panic j | abort j | release j =>
      by_cases hj : j = i
      · have hnone : s.tasks[j]? = none := List.getElem?_eq_none (by omega)
        simp [State.step, begin, finish, panic, abort, release, hnone]
      · exact about_other rfl hj

theorem Chronicled.step (h : Chronicled name s effects) (chained : Chained s) (given : Input) :
    Chronicled name (s.step given).1 (effects ++ (s.step given).2) where
  named := (name_step s given).trans h.named
  known i key stage hkey hstage := by
    rw [about_append]
    by_cases hknown : i < s.tasks.length
    · have hfound : s.tasks[i]? = some s.tasks[i] := List.getElem?_eq_getElem hknown
      have hold : s.keyOf i = some s.tasks[i].key := by rw [keyOf, hfound]; rfl
      rw [keyOf_step_of_known hknown, hold] at hkey
      obtain ⟨next, hnext, hchange⟩ := chained.changes hfound given
      obtain rfl : next = stage := Option.some.inj (hnext.symm.trans hstage)
      cases hkey
      rw [h.named] at hchange
      exact (h.known i _ _ hold (stageOf_found hfound)).next hchange
    · obtain ⟨rfl, k, rfl⟩ := launched_of_step hknown (lt_of_keyOf hkey)
      have howner : s.owner? k ≠ some s.tasks.length := fun howner =>
        Nat.lt_irrefl _ (lt_of_keyOf (chained.owner k _ howner).1)
      have hlast : (s.step (.launch k)).1.keyOf s.tasks.length = some k := by
        rw [keyOf_eq, taskKeys_step, tasks_length_eq]
        simp [Input.launched?]
      rw [hlast] at hkey
      rw [State.step, stageOf_launch, if_pos rfl] at hstage
      cases hkey
      cases hstage
      rw [h.unknown _ (Nat.le_refl _), State.step, about_launch, if_neg howner, if_pos rfl,
        event_eq, h.named]
      exact .launched
  unknown i unknown := by
    rw [about_append, chained.about_unknown unknown, List.append_nil]
    exact h.unknown i (by rw [tasks_length_step] at unknown; omega)

theorem Chronicled.run (h : Chronicled name s effects) (chained : Chained s)
    (inputs : List Input) :
    Chronicled name (s.run inputs).1 (effects ++ (s.run inputs).2) := by
  induction inputs generalizing s effects with
  | nil => simpa [State.run] using h
  | cons given rest ih =>
      rw [run_cons, ← List.append_assoc]
      exact ih (h.step chained given) (chained.step given)

/-! ## The grammar -/

def asked (name : String) (key : Value) (i n : Nat) : List Event :=
  List.replicate n (notice name key i .taskCancelRequested)

def opening (name : String) (key : Value) (i n : Nat) : List Event :=
  notice name key i .taskLaunched :: asked name key i n

def starting (name : String) (key : Value) (i m : Nat) : List Event :=
  notice name key i .taskStarted :: asked name key i m

/-- The words of the events about a task. -/
inductive Tale (name : String) (key : Value) (i : Nat) : List Event → Prop
  | waiting (n : Nat) : Tale name key i (opening name key i n)
  | skipped (n : Nat) : Tale name key i (opening name key i n ++ [notice name key i .taskSkipped])
  | running (n m : Nat) : Tale name key i (opening name key i n ++ starting name key i m)
  | returned (n m : Nat) (r : Except TaskError Exit) (called : r ≠ .ok .skipped) :
      Tale name key i (opening name key i n ++ starting name key i m ++ [lastNotice name key i r])

def TaleAt (name : String) (key : Value) (i : Nat) : Stage → List Event → Prop
  | .waiting, events | .orphaned, events => ∃ n, events = opening name key i n
  | .running, events => ∃ n m, events = opening name key i n ++ starting name key i m
  | .ended, events => Tale name key i events

theorem TaleAt.tale {events : List Event} (h : TaleAt name key i stage events) :
    Tale name key i events := by
  cases stage with
  | waiting | orphaned => obtain ⟨n, rfl⟩ := h; exact .waiting n
  | running => obtain ⟨n, m, rfl⟩ := h; exact .running n m
  | ended => exact h

theorem opening_succ (name : String) (key : Value) (i n : Nat) :
    opening name key i (n + 1) =
      opening name key i n ++ [notice name key i .taskCancelRequested] := by
  simp [opening, asked, List.replicate_succ']

theorem starting_succ (name : String) (key : Value) (i m : Nat) :
    starting name key i (m + 1) =
      starting name key i m ++ [notice name key i .taskCancelRequested] := by
  simp [starting, asked, List.replicate_succ']

theorem History.taleAt (h : History name key i stage told) :
    TaleAt name key i stage (published told) := by
  induction h with
  | launched => exact ⟨0, rfl⟩
  | @next stage _ _ _ _ change ih =>
      rw [published_append]
      cases change with
      | none => simpa using ih
      | asked live =>
          cases stage with
          | waiting | orphaned =>
              obtain ⟨n, hn⟩ := ih
              exact ⟨n + 1, by rw [hn, opening_succ]; rfl⟩
          | running =>
              obtain ⟨n, m, hn⟩ := ih
              exact ⟨n, m + 1, by rw [hn, starting_succ, ← List.append_assoc]; rfl⟩
          | ended => exact absurd rfl live
      | started =>
          obtain ⟨n, hn⟩ := ih
          exact ⟨n, 0, by rw [hn]; rfl⟩
      | skipped =>
          obtain ⟨n, hn⟩ := ih
          rw [hn]
          exact .skipped n
      | returned r called failure =>
          obtain ⟨n, m, hn⟩ := ih
          rw [hn]
          exact .returned n m r called
      | panicked | aborted | released => simpa [TaleAt] using ih.tale
      | orphaned => simpa [TaleAt] using ih

theorem History.called (h : History name key i stage told) :
    .callBody i ∈ told ↔ notice name key i .taskStarted ∈ published told := by
  induction h with
  | launched => simp [notice]
  | next before change ih =>
      rw [List.mem_append, published_append, List.mem_append, ih]
      refine or_congr_right ?_
      cases change with
      | returned r called failure =>
          cases r with
          | ok e => cases e <;> simp [notice, lastNotice, Exit.kind]
          | error e => simp [notice, lastNotice]
      | _ => simp [notice, lastNotice, Exit.kind]

theorem History.resolved (h : History name key i stage told) :
    (told.filterMap Effect.resolved?).length =
      if stage = .waiting ∨ stage = .running then 0 else 1 := by
  induction h with
  | launched => rfl
  | next before change ih =>
      rw [List.filterMap_append, List.length_append, ih]
      cases change with
      | aborted live => rcases live with rfl | rfl <;> rfl
      | none | asked => simp [Effect.resolved?]
      | _ => rfl

theorem History.returned {r : Except TaskError Exit} (h : History name key i stage told)
    (known : .resolve i (.returned r) ∈ told) :
    stage = .ended ∧ (published told).getLast? = some (lastNotice name key i r) ∧
      ∀ e, r = .error e → e.isCancellation = false := by
  induction h with
  | launched => simp at known
  | @next stage _ told more before change ih =>
      cases change with
      | none => simpa using ih (by simpa using known)
      | asked live => exact absurd (ih (by simpa using known)).1 live
      | started => cases (ih (by simpa using known)).1
      | skipped =>
          rcases List.mem_append.mp known with hold | hnew
          · cases (ih hold).1
          · simp at hnew
            subst hnew
            simp
      | returned r' called failure =>
          rcases List.mem_append.mp known with hold | hnew
          · cases (ih hold).1
          · simp at hnew
            subst hnew
            simpa using failure
      | panicked => cases (ih (by simpa using known)).1
      | aborted live =>
          have := (ih (by simpa using known)).1
          simp [this] at live
      | orphaned => cases (ih (by simpa using known)).1
      | released => cases (ih (by simpa using known)).1

/-! ## The order of events -/

theorem published_about (i : Nat) (effects : List Effect) :
    published (about i effects) =
      (published effects).filter fun e => e.taskId = some (taskId i) := by
  induction effects with
  | nil => rfl
  | cons e rest ih =>
      cases e with
      | publish e =>
          rw [published_publish, List.filter_cons, ← ih, about, List.filter_cons]
          by_cases he : e.taskId = some (taskId i) <;> simp [Effect.concerns, he, about]
      | callBody j | resolve j r =>
          rw [about, List.filter_cons]
          split <;> exact ih
      | signal | start | startRelease => exact ih

@[simp] theorem published_cancelTask (s : State) (i : Nat) : published (s.cancelTask i).2 = [] := by
  unfold cancelTask
  split <;> rfl

@[simp] theorem published_close (s : State) : published s.close.2 = [] :=
  close_induct (P := fun _ effects => published effects = []) rfl fun t effects j h => by
    rw [published_append, h, published_cancelTask]
    rfl

theorem published_cancel (s : State) (key : Value) :
    published (s.cancel key).2 =
      (s.owner? key).toList.map (s.event .taskCancelRequested key) := by
  unfold cancel
  cases s.owner? key <;> simp

theorem published_launch (s : State) (key : Value) :
    published (s.launch key).2 = (s.owner? key).toList.map (s.event .taskCancelRequested key) ++
      [s.event .taskLaunched key s.tasks.length] := by
  rw [launch_tells]
  cases s.owner? key <;> simp

def launches (effects : List Effect) : List Event :=
  (published effects).filter fun e => e.kind = .taskLaunched

theorem launches_step (s : State) (given : Input) :
    launches (s.step given).2 =
      given.launched?.toList.map fun key => s.event .taskLaunched key s.tasks.length := by
  cases given with
  | launch key =>
      rw [launches, step, published_launch]
      cases s.owner? key <;> simp [event, Input.launched?]
  | cancel key =>
      rw [launches, step, published_cancel]
      cases s.owner? key <;> simp [event, Input.launched?]
  | close => simp [launches, step, Input.launched?]
  | begin | finish | abort | panic | release =>
      simp only [step, begin, finish, verdict, abort, panic, release]
      repeat' split
      all_goals simp [launches, endTask, event, Input.launched?]

theorem started_of_step (s : State) (given : Input) :
    ∀ e ∈ published (s.step given).2, e.kind = .taskStarted →
      ∃ j, e.taskId = some (taskId j) ∧ .callBody j ∈ (s.step given).2 := by
  cases given with
  | launch key =>
      rw [step, published_launch]
      cases s.owner? key <;> simp [event]
  | cancel key =>
      rw [step, published_cancel]
      cases s.owner? key <;> simp [event]
  | close => simp [step]
  | begin | finish | abort | panic | release =>
      simp only [step, begin, finish, verdict, abort, panic, release]
      repeat' split
      all_goals simp [endTask, event]

theorem Chained.silent (h : Chained s) (ended : s.stageOf i = some .ended) (given : Input) :
    about i (s.step given).2 = [] := by
  obtain ⟨task, htask, hstage⟩ := Option.map_eq_some_iff.mp ended
  obtain ⟨next, _, hchange⟩ := h.changes htask given
  rw [hstage] at hchange
  generalize about i (s.step given).2 = told at hchange ⊢
  cases hchange with
  | none => rfl
  | asked live => exact absurd rfl live
  | aborted live => simp at live

theorem Chronicled.started (h : Chronicled name s effects) {e : Event}
    (told : e ∈ published effects) (start : e.kind = .taskStarted)
    (of : e.taskId = some (taskId i)) : s.Started i := by
  have hmem : e ∈ published (about i effects) := by
    rw [published_about]
    exact List.mem_filter.mpr ⟨told, by simpa using of⟩
  have hknown : i < s.tasks.length := by
    by_contra hlong
    rw [h.unknown i (Nat.le_of_not_lt hlong)] at hmem
    cases hmem
  have hfound : s.tasks[i]? = some s.tasks[i] := List.getElem?_eq_getElem hknown
  have htale := (h.known i _ _ (by rw [keyOf, hfound]; rfl) (stageOf_found hfound)).taleAt
  rw [Started, stageOf_found hfound]
  have hopening {n : Nat} (heq : published (about i effects) = opening name s.tasks[i].key i n) :
      False := by
    rw [heq] at hmem
    simp [opening, asked, List.mem_replicate] at hmem
    rcases hmem with rfl | ⟨_, rfl⟩ <;> simp [notice] at start
  cases hstage : s.tasks[i].stage with
  | waiting | orphaned =>
      rw [hstage] at htale
      obtain ⟨n, hn⟩ := htale
      exact (hopening hn).elim
  | running => exact .inl rfl
  | ended => exact .inr rfl

def Before (i j : Nat) (events : List Event) : Prop :=
  events.Pairwise fun e later =>
    e.kind = .taskStarted → e.taskId = some (taskId j) → later.taskId ≠ some (taskId i)

theorem Chronicled.before_step (h : Chronicled name s effects) (chained : Chained s)
    (before : Before i j (published effects)) (hi : s.keyOf i = some key)
    (hj : s.keyOf j = some key) (lt : i < j) (given : Input) :
    Before i j (published (effects ++ (s.step given).2)) := by
  have hquiet (clear : s.Clear j) :
      ∀ e ∈ published (s.step given).2, e.taskId ≠ some (taskId i) := by
    intro e he hid
    have hsilent := chained.silent (clear key i hj hi lt) given
    have hmem : e ∈ published (about i (s.step given).2) := by
      rw [published_about]
      exact List.mem_filter.mpr ⟨he, by simpa using hid⟩
    rw [hsilent] at hmem
    cases hmem
  rw [published_append]
  refine List.pairwise_append.mpr ⟨before, ?_, fun e he later hlater start hid => ?_⟩
  · refine List.pairwise_of_forall_mem_list fun e he later hlater start hid => ?_
    obtain ⟨k, hk, hcall⟩ := started_of_step s given e he start
    obtain rfl : k = j := by simpa [hk] using hid
    exact hquiet (chained.clear_of_awaits (called_of_step hcall).2) later hlater
  · exact hquiet (chained.cleared j (h.started he start hid)) later hlater

theorem Chronicled.before_of_fresh (h : Chronicled name s effects) (fresh : ¬s.Started j)
    (i : Nat) : Before i j (published effects) :=
  List.pairwise_of_forall_mem_list fun _ he _ _ start hid => absurd (h.started he start hid) fresh

theorem before_run {inputs : List Input} (hi : (State.run { name } inputs).1.keyOf i = some key)
    (hj : (State.run { name } inputs).1.keyOf j = some key) (lt : i < j) :
    Before i j (published (State.run { name } inputs).2) := by
  induction inputs using List.reverseRecOn with
  | nil => cases hi
  | append_singleton inputs given ih =>
      have chained := (chained_fresh name).run inputs
      have chronicled := (chronicled_fresh name).run (chained_fresh name) inputs
      rw [List.nil_append] at chronicled
      rw [run_concat] at hi hj ⊢
      generalize State.run { name } inputs = r at *
      by_cases hknown : j < r.1.tasks.length
      · rw [keyOf_step_of_known (Nat.lt_trans lt hknown)] at hi
        rw [keyOf_step_of_known hknown] at hj
        exact chronicled.before_step chained (ih hi hj) hi hj lt given
      · obtain ⟨rfl, k, rfl⟩ := launched_of_step hknown (lt_of_keyOf hj)
        refine (chronicled.step chained _).before_of_fresh ?_ i
        rw [Started, State.step, stageOf_launch, if_pos rfl]
        simp

theorem launches_run (name : String) (inputs : List Input) :
    (launches (State.run { name } inputs).2).map Event.taskId =
      (List.range (State.run { name } inputs).1.tasks.length).map fun i => some (taskId i) := by
  induction inputs using List.reverseRecOn with
  | nil => rfl
  | append_singleton inputs given ih =>
      rw [run_concat, launches, published_append, List.filter_append, List.map_append]
      change (launches _).map _ ++ (launches _).map _ = _
      rw [ih, launches_step, tasks_length_step]
      cases given.launched? with
      | none => simp
      | some key => simp [List.range_succ]

theorem completed_of_finish {r : Except TaskError Unit}
    (told : .resolve i (.returned (.ok .completed)) ∈ (s.finish i r).2) :
    r = .ok () ∧ s.isCancelled i = false := by
  unfold finish at told
  cases hfound : s.tasks[i]? with
  | none => simp [hfound] at told
  | some task =>
      simp only [hfound] at told
      split at told
      · cases r with
        | ok u =>
            cases hcancelled : task.cancelled with
            | true => simp [verdict, endTask, hcancelled] at told
            | false => exact ⟨rfl, by simp [isCancelled, hfound, hcancelled]⟩
        | error e =>
            cases hcancellation : e.isCancellation <;>
              simp [verdict, endTask, hcancellation] at told
      · cases told

theorem learns_of_step {r : Result} (told : .resolve i r ∈ (s.step given).2) :
    Learns given (s.step given).1 i r := by
  cases hlaunched : given.launched? with
  | some key =>
      cases given with
      | launch k =>
          obtain ⟨calm, heffects, hcalm⟩ := launch_effects s k
          rw [step, heffects] at told
          rcases List.mem_append.mp told with hmem | hmem
          · cases hcalm _ hmem
          · cases List.mem_singleton.mp hmem
      | _ => cases hlaunched
  | none =>
      rcases tame_step (s := s) hlaunched _ told with hcalm | ⟨j, r, heq, hlearns⟩
      · cases hcalm
      · cases heq
        exact hlearns

theorem completed_of_step (told : .resolve i (.returned (.ok .completed)) ∈ (s.step given).2) :
    given = .finish i (.ok ()) ∧ s.isCancelled i = false := by
  cases (learns_of_step told).1 with
  | exited r _ _ =>
      obtain ⟨rfl, hspared⟩ := completed_of_finish told
      exact ⟨rfl, hspared⟩

/-! ## Agreement -/

/-- What can be read from the effects of a run.  Each task has a tale of its own, its result goes
with the last event about it, and a body is told to be completed if it returns well and its task was
not asked to give up. -/
structure Agrees (name : String) (inputs : List Input) (s : State) (effects : List Effect) :
    Prop where
  tale : ∀ i key, s.keyOf i = some key →
    Tale name key i ((published effects).filter fun e => e.taskId = some (taskId i))
  called : ∀ i key, s.keyOf i = some key →
    (.callBody i ∈ effects ↔ notice name key i .taskStarted ∈ published effects)
  result : ∀ i key r, s.keyOf i = some key → .resolve i (.returned r) ∈ effects →
    ((published effects).filter fun e => e.taskId = some (taskId i)).getLast? =
      some (lastNotice name key i r) ∧ ∀ e, r = .error e → e.isCancellation = false
  single : ∀ i, s.isEnded i = true →
    ∃ r, (effects.filterMap Effect.resolved?).filter (fun told => told.1 = i) = [(i, r)]
  completed : ∀ before given after i, inputs = before ++ given :: after →
    .resolve i (.returned (.ok .completed)) ∈ ((State.run { name } before).1.step given).2 →
      given = .finish i (.ok ()) ∧ (State.run { name } before).1.isCancelled i = false
  order : ∀ key i j, s.keyOf i = some key → s.keyOf j = some key → i < j →
    Before i j (published effects)
  launched : (launches effects).map Event.taskId =
    (List.range s.tasks.length).map fun i => some (taskId i)

theorem resolved_about (i : Nat) (effects : List Effect) :
    (about i effects).filterMap Effect.resolved? =
      (effects.filterMap Effect.resolved?).filter fun told => told.1 = i := by
  induction effects with
  | nil => rfl
  | cons e rest ih =>
      cases e with
      | resolve j r => by_cases hj : j = i <;> simp_all [about, Effect.concerns, Effect.resolved?]
      | publish | callBody =>
          rw [about, List.filter_cons]
          split <;> exact ih
      | signal | start | startRelease => exact ih

theorem agrees_run (name : String) (inputs : List Input) :
    Agrees name inputs (State.run { name } inputs).1 (State.run { name } inputs).2 := by
  have chronicled := (chronicled_fresh name).run (chained_fresh name) inputs
  rw [List.nil_append] at chronicled
  have horder (key : Value) (i j : Nat) (hi : (State.run { name } inputs).1.keyOf i = some key)
      (hj : (State.run { name } inputs).1.keyOf j = some key) := before_run hi hj
  have hlaunched := launches_run name inputs
  generalize State.run { name } inputs = r at *
  have history (i : Nat) (key : Value) (launched : r.1.keyOf i = some key) :
      ∃ stage, r.1.stageOf i = some stage ∧ History name key i stage (about i r.2) := by
    have hfound := List.getElem?_eq_getElem (lt_of_keyOf launched)
    exact ⟨_, stageOf_found hfound, chronicled.known i key _ launched (stageOf_found hfound)⟩
  constructor
  · intro i key launched
    obtain ⟨stage, _, hhistory⟩ := history i key launched
    rw [← published_about]
    exact hhistory.taleAt.tale
  · intro i key launched
    obtain ⟨stage, _, hhistory⟩ := history i key launched
    have hcalled := hhistory.called
    rw [published_about, List.mem_filter] at hcalled
    simpa [about, Effect.concerns] using hcalled
  · intro i key r launched told
    obtain ⟨stage, _, hhistory⟩ := history i key launched
    rw [← published_about]
    exact (hhistory.returned (List.mem_filter.mpr ⟨told, by simp [Effect.concerns]⟩)).2
  · intro i ended
    rw [isEnded_iff] at ended
    obtain ⟨task, hfound, hstage⟩ := Option.map_eq_some_iff.mp ended
    have hcount := (chronicled.known i _ _ (by rw [keyOf, hfound]; rfl) ended).resolved
    rw [if_neg (by simp), resolved_about] at hcount
    obtain ⟨⟨j, result⟩, hresult⟩ := List.length_eq_one_iff.mp hcount
    have hself : (j, result) ∈ (r.2.filterMap Effect.resolved?).filter fun told => told.1 = i := by
      rw [hresult]
      exact List.mem_singleton_self _
    obtain rfl : j = i := by simpa using (List.mem_filter.mp hself).2
    exact ⟨result, hresult⟩
  · exact fun before given after i _ told => completed_of_step told
  · exact horder
  · exact hlaunched

end State

end Lifecycle.Supervisor
