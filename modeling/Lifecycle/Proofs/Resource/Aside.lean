import Lifecycle.Proofs.Resource.Run
import Lifecycle.Proofs.Supervisor.Stages

/-!
# What goes on beside the supervisor

Between two inputs of the supervisor notes are taken, signals are given, and cells are made, closed
and written to.  What is written and reported meanwhile is told by a few lines of the record.
-/

namespace Lifecycle.Supervisor.Scenario

open HasExecutor
open Resource

variable {turn : Option TaskId} {u v w : World} {lines after : Record}
  {news more : List (Nat × Result)} {x y z : Executor Signal Task}

def Task.isBodiless : Task → Bool
  | .program (.supervised _ _) => false
  | .program _ | .waiter _ _ | .watcher _ _ _ => true

theorem Task.ne_supervised {t : Task} (bodiless : t.isBodiless = true) (i : Nat)
    (b : Option Body) : t ≠ .program (.supervised i b) := by
  rintro rfl
  cases bodiless

theorem Task.eq_supervised {t : Task} (h : t.isBodiless = false) :
    ∃ i b, t = .program (.supervised i b) := by
  cases t with
  | program p =>
      cases p with
      | supervised i b => exact ⟨i, b, rfl⟩
      | releaser | cancelAll | waitIdle => cases h
  | waiter | watcher => cases h

structure Quiet (turn : Option TaskId) (x y : Executor Signal Task) : Prop where
  ordered : y.Ordered turn
  task : ∀ id, (x.task? id).isSome = true → y.task? id = x.task? id
  fresh : ∀ id i b, y.task? id = some (.program (.supervised i b)) →
    (x.task? id).isSome = true

namespace Quiet

theorem of_task (ordered : y.Ordered turn) (task : ∀ id, y.task? id = x.task? id) :
    Quiet turn x y where
  ordered := ordered
  task id _ := task id
  fresh id i b supervised := by rw [← task, supervised]; rfl

theorem refl (ordered : x.Ordered turn) : Quiet turn x x := of_task ordered fun _ => rfl

theorem trans (h₁ : Quiet turn x y) (h₂ : Quiet turn y z) : Quiet turn x z where
  ordered := h₂.ordered
  task id present := by
    have hfirst := h₁.task id present
    rw [← hfirst] at present ⊢
    exact h₂.task id present
  fresh id i b supervised := by
    have hsecond := h₂.task id (h₂.fresh id i b supervised)
    exact h₁.fresh id i b (hsecond.symm.trans supervised)

theorem supervised (h : Quiet turn x y) {id : TaskId} {i : Nat} {b : Option Body}
    (task : y.task? id = some (.program (.supervised i b))) :
    x.task? id = some (.program (.supervised i b)) :=
  (h.task id (h.fresh id i b task)).symm.trans task

theorem signal (ordered : x.Ordered turn) (s : Signal) : Quiet turn x (x.signal s) :=
  of_task (ordered.signal s) fun id =>
    (Executor.keeps_signal x s).task id (Option.some_ne_none id).symm

theorem moveClock (ordered : x.Ordered turn) (now : Nat) : Quiet turn x (x.moveClock now) := by
  refine of_task (ordered.moveClock now) fun id => ?_
  obtain ⟨woken, hwoken⟩ := x.moveClock_eq now
  rw [hwoken]
  rfl

theorem abort (ordered : x.Ordered turn) (id : TaskId) : Quiet turn x (x.abort id) :=
  of_task (ordered.abort id) (x.task?_abort id)

theorem spawn (ordered : x.Ordered turn) {t : Task} (bodiless : t.isBodiless = true) :
    Quiet turn x (x.spawn t) where
  ordered := ordered.spawn t
  task id present := Executor.task?_spawn_ne t (Nat.ne_of_lt (ordered.tasks id present))
  fresh id i b supervised := by
    by_cases hid : id = x.nextTask
    · rw [hid, Executor.task?_spawn ordered.toNumbered] at supervised
      exact absurd (Option.some.inj supervised) (Task.ne_supervised bodiless i b)
    · rw [Executor.task?_spawn_ne t hid] at supervised
      rw [supervised]
      rfl

end Quiet

/-- The supervisor and the bodies are as before, `lines` tells what was written and reported, and
`news` are the results that became known. -/
structure Aside (turn : Option TaskId) (w : World) (lines : Record) (news : List (Nat × Result))
    (v : World) : Prop where
  executor : Quiet turn w.executor v.executor
  supervisor : v.supervisor = w.supervisor
  bodies : v.bodies = w.bodies
  results : v.results = w.results ++ news
  reports : v.reports = w.reports ++ lines.filterMap (Line.report? w.supervisor.name)
  cells : w.cells.length ≤ v.cells.length
  writes : ∀ c, (v.cell c).writes = (w.cell c).writes ++ writesTo c lines
  named : (∀ r ∈ w.resources, r.2 < w.cells.length) → ∀ r ∈ v.resources, r.2 < v.cells.length

namespace Aside

theorem trans (h₁ : Aside turn w lines news v) (h₂ : Aside turn v after more u) :
    Aside turn w (lines ++ after) (news ++ more) u where
  executor := h₁.executor.trans h₂.executor
  supervisor := h₂.supervisor.trans h₁.supervisor
  bodies := h₂.bodies.trans h₁.bodies
  results := by rw [h₂.results, h₁.results, List.append_assoc]
  reports := by
    rw [h₂.reports, h₁.reports, h₁.supervisor, List.filterMap_append, List.append_assoc]
  cells := Nat.le_trans h₁.cells h₂.cells
  writes c := by rw [h₂.writes, h₁.writes, writesTo_append, List.append_assoc]
  named named := h₂.named (h₁.named named)

theorem of_quiet (executor : Quiet turn w.executor v.executor)
    (supervisor : v.supervisor = w.supervisor) (bodies : v.bodies = w.bodies)
    (results : v.results = w.results ++ news) (reports : v.reports = w.reports)
    (cells : v.cells = w.cells) (resources : v.resources.Sublist w.resources) :
    Aside turn w [] news v where
  executor := executor
  supervisor := supervisor
  bodies := bodies
  results := results
  reports := reports.trans (List.append_nil _).symm
  cells := Nat.le_of_eq (by rw [cells])
  writes c := by rw [World.cell, cells, World.cell]; exact (List.append_nil _).symm
  named named r hr := by
    rw [cells]
    exact named r (resources.mem hr)

theorem refl (ordered : w.executor.Ordered turn) : Aside turn w [] [] w :=
  of_quiet (.refl ordered) rfl rfl (List.append_nil _).symm rfl rfl (.refl _)

theorem note (ordered : w.executor.Ordered turn) (name : String) (n : Note) :
    Aside turn w [] [] (w.note name n) :=
  of_quiet (.refl ordered) rfl rfl (List.append_nil _).symm rfl rfl (.refl _)

theorem update {f : Executor Signal Task → Executor Signal Task}
    (quiet : Quiet turn w.executor (f w.executor)) :
    Aside turn w [] [] (HasExecutor.update w f) :=
  of_quiet quiet rfl rfl (List.append_nil _).symm rfl rfl (.refl _)

/-! ## Effects -/

theorem perform (ordered : w.executor.Ordered turn) {e : Effect} (calm : e.isCalm = true) :
    Aside turn w [] [] (Hosting.perform w e) := by
  cases e with
  | publish e =>
      exact of_quiet (.refl ordered) rfl rfl (List.append_nil _).symm rfl rfl (.refl _)
  | signal s => exact update (f := (·.signal _)) (.signal ordered _)
  | start i => cases calm
  | callBody i => exact .refl ordered
  | startRelease i => exact update (f := (·.spawn _)) (.spawn ordered rfl)
  | resolve i r => cases calm

theorem resolve (ordered : w.executor.Ordered turn) (i : Nat) (r : Result) :
    Aside turn w [] [(i, r)] (Hosting.perform w (.resolve i r)) :=
  of_quiet (.refl ordered) rfl rfl rfl rfl rfl (.refl _)

theorem performAll {P : Nat → Result → Prop} {effects : List Effect}
    (ordered : w.executor.Ordered turn) (tame : State.Tame P effects) :
    ∃ news, Aside turn w [] news (effects.foldl Hosting.perform w) ∧
      ∀ i r, (i, r) ∈ news → P i r := by
  induction effects generalizing w with
  | nil => exact ⟨[], .refl ordered, fun _ _ h => absurd h List.not_mem_nil⟩
  | cons e rest ih =>
      have hrest : State.Tame P rest := fun e he => tame e (List.mem_cons_of_mem _ he)
      rcases tame e List.mem_cons_self with calm | ⟨i, r, rfl, told⟩
      · have hfirst := perform ordered calm
        obtain ⟨news, haside, hnews⟩ := ih hfirst.executor.ordered hrest
        exact ⟨news, hfirst.trans haside, hnews⟩
      · have hfirst := resolve ordered i r
        obtain ⟨news, haside, hnews⟩ := ih hfirst.executor.ordered hrest
        refine ⟨_, hfirst.trans haside, fun j r' hmem => ?_⟩
        rcases List.mem_append.mp hmem with hself | hlater
        · cases List.mem_singleton.mp hself
          exact told
        · exact hnews j r' hlater

end Aside

/-! ## Cells -/

theorem cell_modify (w : World) (c k : Nat) (f : Cell Value → Cell Value) :
    (w.modifyCell c f).cell k =
      if c = k ∧ k < w.cells.length then f (w.cell k) else w.cell k := by
  simp only [World.cell, World.modifyCell, HasExecutor.signal, update, HasExecutor.withExecutor,
    List.getElem?_modify]
  by_cases hk : k < w.cells.length
  · by_cases hc : c = k <;> simp [hc, hk]
  · simp [hk]

theorem reportFor_of_keyOf {i : Nat} {key : Value} (known : w.supervisor.keyOf i = some key)
    (e : TaskError) :
    w.reportFor i e =
      { w with reports := w.reports ++ [Resource.report w.supervisor.name key e] } := by
  obtain ⟨task, htask, hkey⟩ := Option.map_eq_some_iff.mp known
  rw [World.reportFor, htask, ← hkey]

theorem cell_reportFor (w : World) (i c : Nat) (e : TaskError) :
    (w.reportFor i e).cell c = w.cell c := by
  unfold World.reportFor
  split <;> rfl

theorem cellNamed_lt (named : ∀ r ∈ w.resources, r.2 < w.cells.length) (name : String) :
    (w.cellNamed name).1 < (w.cellNamed name).2.cells.length := by
  unfold World.cellNamed
  split
  · rename_i c found
    obtain ⟨before, rest, hsplit, _⟩ := List.lookup_eq_some_iff.mp found
    exact named (name, c) (by simp [hsplit])
  · simp

namespace Aside

theorem modifyCell (ordered : w.executor.Ordered turn) {c : Nat} (known : c < w.cells.length)
    {f : Cell Value → Cell Value}
    (own : (f (w.cell c)).writes = (w.cell c).writes ++ writesTo c lines)
    (others : ∀ k, k ≠ c → writesTo k lines = [])
    (silent : lines.filterMap (Line.report? w.supervisor.name) = []) :
    Aside turn w lines [] (w.modifyCell c f) where
  executor := .signal ordered _
  supervisor := rfl
  bodies := rfl
  results := (List.append_nil _).symm
  reports := by rw [silent]; exact (List.append_nil _).symm
  cells := Nat.le_of_eq (List.length_modify _ _ _).symm
  writes k := by
    rw [cell_modify]
    by_cases hc : c = k
    · subst hc
      rw [if_pos ⟨rfl, known⟩, own]
    · rw [if_neg fun h => hc h.1, others k (Ne.symm hc), List.append_nil]
  named named r hr := Nat.lt_of_lt_of_eq (named r hr) (List.length_modify _ _ _).symm

theorem touchCell (ordered : w.executor.Ordered turn) (c : Nat) {f : Cell Value → Cell Value}
    (same : ∀ cell, (f cell).writes = cell.writes) : Aside turn w [] [] (w.modifyCell c f) where
  executor := .signal ordered _
  supervisor := rfl
  bodies := rfl
  results := (List.append_nil _).symm
  reports := (List.append_nil _).symm
  cells := Nat.le_of_eq (List.length_modify _ _ _).symm
  writes k := by
    rw [cell_modify]
    split
    · exact (same _).trans (List.append_nil _).symm
    · exact (List.append_nil _).symm
  named named r hr := Nat.lt_of_lt_of_eq (named r hr) (List.length_modify _ _ _).symm

theorem addCell (ordered : w.executor.Ordered turn) (name : String) {cell : Cell Value}
    (empty : cell.writes = []) {resources : List (String × Nat)}
    (old : ∀ r ∈ resources, r ∈ w.resources) :
    Aside turn w [] [] { w with
      cells := w.cells ++ [cell], resources := resources ++ [(name, w.cells.length)] } where
  executor := .refl ordered
  supervisor := rfl
  bodies := rfl
  results := (List.append_nil _).symm
  reports := (List.append_nil _).symm
  cells := by simp
  writes c := by
    simp only [World.cell, List.getElem?_append]
    split
    · exact (List.append_nil _).symm
    · rename_i hlong
      rw [List.getElem?_eq_none (Nat.le_of_not_lt hlong)]
      cases c - w.cells.length <;> simp [empty, writesTo]
  named named r hr := by
    rw [List.length_append, List.length_singleton]
    rcases List.mem_append.mp hr with hr | hr
    · exact Nat.lt_succ_of_lt (named r (old r hr))
    · rw [List.mem_singleton.mp hr]
      exact Nat.lt_succ_self _

theorem cellNamed (ordered : w.executor.Ordered turn) (name : String) :
    Aside turn w [] [] (w.cellNamed name).2 := by
  unfold World.cellNamed
  split
  · exact .refl ordered
  · exact .addCell ordered name rfl fun _ h => h

end Aside

end Lifecycle.Supervisor.Scenario
