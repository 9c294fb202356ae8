import Lifecycle.Proofs.Gate.Errands
import Lifecycle.Proofs.Hosting.Frame

/-!
# The crew of a gate

The tasks of a gate call its hooks and end its grace periods.  Whatever is outstanding at the gate
is in the care of one of them, and each of them is in the queue, inside a hook, or waits for
something that is still to come.  `Linked` says so also while the effects of a step are still to be
performed and while one task has its turn.
-/

namespace Lifecycle

namespace Debouncer

structure Orderly (d : Debouncer) : Prop where
  patient : d.settings.leading = false
  pending : ∀ k ∈ d.pending, k ≤ d.generation
  discarded : ∀ k ∈ d.discarded, k ≤ d.generation

variable {d : Debouncer}

theorem Orderly.discard (h : d.Orderly) : d.discard.Orderly where
  patient := h.patient
  pending := nofun
  discarded k hk := by
    rcases List.mem_append.mp hk with hk | hk
    · exact h.discarded k hk
    · exact h.pending k (Option.mem_toList.mp hk)

theorem Orderly.schedule (h : d.Orderly) (now : Nat) (delay : Span) :
    (d.schedule now delay).1.Orderly where
  patient := h.patient
  pending k hk := by
    cases hk
    exact Nat.le_refl _
  discarded k hk := Nat.le_succ_of_le (h.discard.discarded k hk)

theorem Orderly.not_discarded (h : d.Orderly) (now : Nat) (delay : Span) :
    (d.schedule now delay).2.number ∉ (d.schedule now delay).1.discarded := by
  intro hk
  have hle := h.discard.discarded _ hk
  exact Nat.lt_irrefl _ (Nat.lt_of_lt_of_le (Nat.lt_succ_self _) hle)

theorem Orderly.job (h : d.Orderly) (now : Nat) (delay : Span) :
    (d.schedule now delay).2 =
      { number := (d.schedule now delay).1.generation, wait := delay } := by
  simp [Debouncer.schedule, Debouncer.wait, h.patient]

end Debouncer

namespace Gate

/-- The beginning or end of a hook that the task is to bring about. -/
def Task.mark? {η : Type} : Task η → Option Mark
  | .activation i none => some (.activate i)
  | .activation i (some _) => some (.activated i)
  | .teardown j none => some (.deactivate j)
  | .teardown j (some _) => some (.deactivated j)
  | .grace _ _ => none

namespace Hosting

open HasExecutor
open State (Paced Manned)

variable {W σ τ γ κ η : Type} [Hosting W σ τ γ κ η]

def Crew (w : W) (id : TaskId) (t : Task η) : Prop :=
  job? w id = some t ∧ (executor w).running ≠ some id

def Holds (w : W) (id : TaskId) (t : Task η) : Prop :=
  job? w id = some t ∧ (executor w).running = some id

/-- The task is in the queue, or it waits for a hook that is not over or whose end is due to be
told. -/
def Awakes (w : W) (due : List (Effect γ κ)) (id : TaskId) (m : Mark) : Prop :=
  id ∈ (executor w).ready ∨ ∃ a, (Hosting.toSignal W (.gate a), id) ∈ (executor w).waits ∧
    (a ∈ (state w).awaits m ∨ .signal a ∈ due)

def Ticks (w : W) (id : TaskId) (job : Debouncer.Job) : Prop :=
  id ∈ (executor w).ready ∨ ∃ deadline, job.deadline = some deadline ∧ now w < deadline ∧
    ⟨deadline, id⟩ ∈ (executor w).timers

/-- What a task has to wait for; what a hook waits for is its own affair. -/
def Tended (w : W) (due : List (Effect γ κ)) (id : TaskId) : Task η → Prop
  | .activation i none => Awakes w due id (.activate i)
  | .teardown j none => Awakes w due id (.deactivate j)
  | .activation _ (some _) | .teardown _ (some _) => True
  | .grace job _ => Ticks w id job

/-- The gate is provided for when the effects in `due` have been performed and the task that has its
turn has seen to what it has in hand. -/
structure Linked (w : W) (due : List (Effect γ κ)) (hand : Option Mark) [Inhabited κ] :
    Prop where
  paced : ∃ n, Paced (state w) n
  manned : Manned (state w)
  numbered : (executor w).Numbered
  orderly : (timer w).Orderly
  staffed : ∀ m, (state w).Outstanding m → hand ≠ some m →
    (∃ id t, Crew w id t ∧ t.mark? = some m) ∨ m ∈ starts due
  tended : ∀ id t, Crew w id t → Tended w due id t
  epochs : ∀ id job epoch, Crew w id (.grace job (some epoch)) → epoch ≤ (state w).drainEpoch
  begins : ∀ grace epoch, some (grace, epoch) ∈ drains due → epoch ≤ (state w).drainEpoch

section Frame

variable {skip : Option TaskId} {w v : W} {id : TaskId} {t : Task η} {due : List (Effect γ κ)}

theorem Frame.crew_iff (frame : Frame skip w v) (other : skip ≠ some id) :
    Crew v id t ↔ Crew w id t := by
  rw [Crew, Crew, frame.job id other]
  constructor
  · rintro ⟨hjob, hidle⟩
    exact ⟨hjob, mt (frame.running id other (by rw [hjob]; rfl)).mpr hidle⟩
  · rintro ⟨hjob, hidle⟩
    exact ⟨hjob, mt (frame.running id other (by rw [hjob]; rfl)).mp hidle⟩

theorem Frame.holds_iff (frame : Frame skip w v) (other : skip ≠ some id) :
    Holds v id t ↔ Holds w id t := by
  rw [Holds, Holds, frame.job id other]
  constructor
  · rintro ⟨hjob, hturn⟩
    exact ⟨hjob, (frame.running id other (by rw [hjob]; rfl)).mp hturn⟩
  · rintro ⟨hjob, hturn⟩
    exact ⟨hjob, (frame.running id other (by rw [hjob]; rfl)).mpr hturn⟩

theorem Holds.not_crew {u : Task η} (holds : Holds w id t) : ¬Crew w id u :=
  fun crew => crew.2 holds.2

theorem holds_congr (same : executor v = executor w) : Holds v id t ↔ Holds w id t := by
  rw [Holds, Holds, job?, job?, same]

theorem Frame.awakes (frame : Frame skip w v) (other : skip ≠ some id) (crew : Crew w id t)
    {m : Mark} (h : Awakes w due id m) : Awakes v due id m := by
  have hpresent : (job? w id).isSome = true := by
    rw [crew.1]
    rfl
  rcases h with hready | ⟨a, hwaits, hcoming⟩
  · exact .inl (frame.ready id other hpresent hready)
  · rcases frame.waits id _ other hpresent crew.2 hwaits with hkept | hready
    · exact .inr ⟨a, hkept, by rwa [frame.state]⟩
    · exact .inl hready

theorem Frame.ticks (frame : Frame skip w v) (other : skip ≠ some id) (crew : Crew w id t)
    {job : Debouncer.Job} (h : Ticks w id job) : Ticks v id job := by
  have hpresent : (job? w id).isSome = true := by
    rw [crew.1]
    rfl
  rcases h with hready | ⟨deadline, hdeadline, hlater, harmed⟩
  · exact .inl (frame.ready id other hpresent hready)
  · exact .inr ⟨deadline, hdeadline, by rwa [frame.now],
      frame.timers id deadline other hpresent harmed⟩

theorem Tended.imp {rest : List (Effect γ κ)} (h : Tended w due id t)
    (awakes : ∀ m, Awakes w due id m → Awakes v rest id m)
    (ticks : ∀ job, Ticks w id job → Ticks v id job) : Tended v rest id t := by
  cases t with
  | activation i hook =>
      cases hook with
      | none => exact awakes _ h
      | some hook => trivial
  | teardown j hook =>
      cases hook with
      | none => exact awakes _ h
      | some hook => trivial
  | grace job epoch => exact ticks job h

theorem tended_of_ready (ready : id ∈ (executor w).ready) : Tended w due id t := by
  cases t with
  | activation i hook =>
      cases hook with
      | none => exact .inl ready
      | some hook => trivial
  | teardown j hook =>
      cases hook with
      | none => exact .inl ready
      | some hook => trivial
  | grace job epoch => exact .inl ready

theorem Tended.of_awakes {m : Mark} (mark : t.mark? = some m) (awakes : Awakes w due id m) :
    Tended w due id t := by
  cases t with
  | activation i hook =>
      cases hook with
      | none =>
          cases mark
          exact awakes
      | some hook => trivial
  | teardown j hook =>
      cases hook with
      | none =>
          cases mark
          exact awakes
      | some hook => trivial
  | grace job epoch => cases mark

theorem Awakes.mono {rest : List (Effect γ κ)} {m : Mark} (h : Awakes w due id m)
    (signals : ∀ a, .signal a ∈ due → .signal a ∈ rest) : Awakes w rest id m := by
  rcases h with hready | ⟨a, hwaits, hcoming⟩
  · exact .inl hready
  · exact .inr ⟨a, hwaits, hcoming.imp_right (signals a)⟩

theorem Frame.tended {rest : List (Effect γ κ)} (frame : Frame skip w v) (other : skip ≠ some id)
    (crew : Crew w id t) (h : Tended w due id t)
    (signals : ∀ a, .signal a ∈ due → .signal a ∈ rest) : Tended v rest id t :=
  h.imp (fun _ ha => (frame.awakes other crew ha).mono signals)
    fun _ => frame.ticks other crew

theorem crew_congr (same : executor v = executor w) : Crew v id t ↔ Crew w id t := by
  rw [Crew, Crew, job?, job?, same]

theorem Ticks.congr {job : Debouncer.Job} (h : Ticks w id job) (same : executor v = executor w) :
    Ticks v id job := by
  rw [Ticks, now, same]
  exact h

theorem Awakes.congr {m : Mark} {rest : List (Effect γ κ)} (h : Awakes w due id m)
    (same : executor v = executor w)
    (coming : ∀ a, a ∈ (state w).awaits m ∨ .signal a ∈ due →
      a ∈ (state v).awaits m ∨ .signal a ∈ rest) : Awakes v rest id m := by
  rw [Awakes, same]
  exact h.imp_right fun ⟨a, hwaits, ha⟩ => ⟨a, hwaits, coming a ha⟩

theorem absent_spawn (numbered : (executor w).Numbered) (id : TaskId) (t : Task η)
    (new : some (executor w).nextTask = some id) : ¬Crew w id t := by
  cases new
  rintro ⟨hjob, _⟩
  rw [job?, numbered.fresh] at hjob
  cases hjob

structure Settles (w v : W) : Prop where
  state : Hosting.state v = Hosting.state w
  now : HasExecutor.now v = HasExecutor.now w
  numbered : (executor w).Numbered → (executor v).Numbered
  holds : (executor w).Numbered → ∀ id t, Holds v id t ↔ Holds w id t

namespace Settles

theorem trans {u : W} (h₁ : Settles w v) (h₂ : Settles v u) : Settles w u where
  state := h₂.state.trans h₁.state
  now := h₂.now.trans h₁.now
  numbered h := h₂.numbered (h₁.numbered h)
  holds h id t := (h₂.holds (h₁.numbered h) id t).trans (h₁.holds h id t)

theorem of_frame (frame : Frame none w v) : Settles w v where
  state := frame.state
  now := frame.now
  numbered := frame.numbered
  holds _ _ _ := frame.holds_iff nofun

end Settles

end Frame

section Schedule

variable [DecidableEq σ]

def cleared (w : W) (delay : Span) : W :=
  withTimer (discardJob w) ((timer w).schedule (now w) delay).1

theorem scheduleJob_eq (w : W) (delay : Span) (epoch : Option Nat) :
    scheduleJob w delay epoch = spawn (cleared w delay)
      (Hosting.toTask W (.grace ((timer w).schedule (now w) delay).2 epoch)) := rfl

end Schedule

section Lawful

variable [Inhabited κ] [LawfulHosting W] {w : W}

theorem crew_spawn (numbered : (executor w).Numbered) (t : Task η) :
    Crew (spawn w (Hosting.toTask W t)) (executor w).nextTask t := by
  refine ⟨job?_spawn numbered t, ?_⟩
  rw [spawn, executor_update]
  exact numbered.idle

theorem ready_spawn (w : W) (t : Task η) :
    (executor w).nextTask ∈ (executor (spawn w (Hosting.toTask W t))).ready := by
  rw [spawn, executor_update]
  exact List.mem_append_right _ (List.mem_singleton_self _)

end Lawful

end Hosting

end Gate

end Lifecycle
