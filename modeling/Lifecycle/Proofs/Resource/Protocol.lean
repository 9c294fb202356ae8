import Lifecycle.Proofs.Resource.Upkeep

/-!
# What loads do to a resource

The history of a resource that only the loads of one key write to is made of one block for each load
that has begun, in the order of the launches.  A block starts with the seed and goes on with what
the body writes.  When the body fails, the failure is reported and then written, with the data of
the write before it if the load keeps data.
-/

namespace Lifecycle.Supervisor.Scenario

open HasExecutor
open Resource

variable {source : String} {w : World} {log : Record} {c : Nat} {key : Value} {who : Loader Value}

theorem kept_fresh (s : Setup) : Kept s.name none none s.world [] where
  name := rfl
  ordered := ⟨⟨fun _ => nofun, nofun⟩, nofun, rfl⟩
  launched _ := nofun
  crew _ _ _ _ := nofun
  unique _ _ _ _ _ _ _ := nofun
  chained := State.chained_fresh s.name
  bodies := rfl
  named _ := nofun
  loads _ _ := nofun
  legal := .nil
  known _ _ := nofun
  writes _ := rfl
  reports := rfl
  abreast _ _ := ⟨fun _ => rfl, fun _ => nofun, fun _ => nofun⟩
  results _ _ := nofun

theorem Kept.run {acts : List Act} (kept : Kept source none none w log)
    (orderly : w.orderly acts = true) :
    Kept source none none (w.after acts) (log ++ w.log acts) := by
  induction acts generalizing w log with
  | nil =>
      rw [World.log, List.append_nil]
      exact kept
  | cons a rest ih =>
      rw [World.orderly_cons] at orderly
      rw [World.log, ← List.append_assoc]
      exact ih (kept.perform orderly.1) orderly.2

/-! ## Histories -/

def World.loaders (w : World) (c : Nat) : List (Loader Value) :=
  (List.range w.bodies.length).filterMap fun i => (w.loader? i).filter fun who => who.cell = c

theorem mem_loaders_iff :
    who ∈ w.loaders c ↔
      who.task < w.bodies.length ∧ w.loader? who.task = some who ∧ who.cell = c := by
  simp only [World.loaders, List.mem_filterMap, List.mem_range, Option.filter_eq_some_iff,
    decide_eq_true_eq]
  constructor
  · rintro ⟨i, hlt, hloader, hcell⟩
    obtain ⟨rfl, _⟩ := World.loader?_eq_some_iff.mp hloader
    exact ⟨hlt, hloader, hcell⟩
  · rintro ⟨hlt, hloader, hcell⟩
    exact ⟨who.task, hlt, hloader, hcell⟩

theorem Kept.history (kept : Kept source none none w log) (exclusive : Exclusive c key log) :
    (w.cell c).writes =
      (w.loaders c).flatMap fun who => (deedsOf who.task log).filterMap Deed.write? := by
  have hbound (who : Loader Value) (d : Deed Value) (line : .load who d ∈ log)
      (_ : who.cell = c) : who.task < w.bodies.length :=
    (lt_of_loader? (kept.known who d line)).trans_eq kept.bodies.symm
  have hblock (i : Nat) : block c i log =
      ((w.loader? i).filter fun who => who.cell = c).toList.flatMap fun who =>
        (deedsOf who.task log).filterMap Deed.write? := by
    cases hfiltered : (w.loader? i).filter fun who => who.cell = c with
    | none =>
        refine block_eq_nil fun who d line cell => ?_
        rintro rfl
        rw [kept.known who d line, Option.filter_some, if_pos (by simpa using cell)] at hfiltered
        cases hfiltered
    | some who =>
        obtain ⟨hloader, hcell⟩ := Option.filter_eq_some_iff.mp hfiltered
        obtain rfl : who.cell = c := by simpa using hcell
        obtain ⟨rfl, _⟩ := World.loader?_eq_some_iff.mp hloader
        rw [block_eq_writes (kept.known_eq hloader)]
        simp
  rw [kept.writes, kept.legal.writes_eq exclusive hbound, World.loaders,
    List.filterMap_eq_flatMap_toList, List.flatMap_assoc]
  exact List.flatMap_congr fun i _ => hblock i

theorem Kept.block (kept : Kept source none none w log) (exclusive : Exclusive c key log)
    (mem : who ∈ w.loaders c) : Block who.load (deedsOf who.task log) := by
  obtain ⟨_, hloader, rfl⟩ := mem_loaders_iff.mp mem
  have hknown := kept.known_eq hloader
  cases hdeeds : deedsOf who.task log with
  | nil => exact .absent
  | cons d rest =>
      -- A load that has done something is one of the key, since it is the only one allowed.
      have hline : .load who d ∈ log :=
        line_of_mem_deedsOf hknown (hdeeds ▸ List.mem_cons_self)
      obtain rfl : who.key = key := Option.some.inj (exclusive _ hline (beq_self_eq_true _))
      rw [← hdeeds]
      exact (kept.legal.course exclusive hknown).block (kept.abreast_all who.task).complete

/-- What users can rely on.  The log tells all writes and reports, and the writes to a resource are
the blocks of its loads, one after the other. -/
structure Faithful (source : String) (w : World) (log : Record) : Prop where
  known : ∀ who d, .load who d ∈ log → w.loader? who.task = some who
  writes : ∀ c, (w.cell c).writes = writesTo c log
  reports : w.reports = log.filterMap (Line.report? source)
  history : ∀ c key, Exclusive c key log →
    (w.cell c).writes =
      (w.loaders c).flatMap fun who => (deedsOf who.task log).filterMap Deed.write?
  blocks : ∀ c key, Exclusive c key log →
    ∀ who ∈ w.loaders c, Block who.load (deedsOf who.task log)
  running : ∀ who, w.loader? who.task = some who →
    w.supervisor.stageOf who.task = some .running → Open who.load (deedsOf who.task log)
  results : ∀ i r, (i, r) ∈ w.results → Told w log i r

theorem histories_consist_of_blocks (setup : Setup) (acts : List Act)
    (orderly : setup.world.orderly acts = true) :
    Faithful setup.name (setup.world.after acts) (setup.world.log acts) := by
  have kept := (kept_fresh setup).run orderly
  rw [List.nil_append] at kept
  generalize setup.world.after acts = w at kept ⊢
  generalize setup.world.log acts = log at kept ⊢
  constructor
  · exact kept.known
  · exact kept.writes
  · exact kept.reports
  · exact fun c key exclusive => kept.history exclusive
  · exact fun c key exclusive who mem => kept.block exclusive mem
  · exact fun who loader => (kept.abreast_all who.task).running who loader
  · exact fun i r mem => (kept.results i r mem).told

/-- The first load writes and fails late, when its successor has been launched. -/
def reloading : List Act :=
  [.step (.launch (.number 7) "first"
      [.set (.success (.number 1)), .pause (.hold "gate"), .set (.success (.number 2)),
        .giveUp (.fail "late")] (some "page") none),
    .turn 0,
    .step (.launch (.number 7) "second" [.set (.success (.number 3))] (some "page")
      (some (some (.number 5), false))),
    .turn 1, .step (.release "gate"), .turn 0, .turn 1]

def managed : Setup := { managed := true }

theorem history_of_late_failure :
    managed.world.orderly reloading = true ∧
      Exclusive 0 (.number 7) (managed.world.log reloading) ∧
      ((managed.world.after reloading).cell 0).writes =
        [.progress none, .success (.number 1), .success (.number 2),
          .error (.fail "late") (some (.number 2)), .progress (some (.number 5)),
          .success (.number 3)] ∧
      (managed.world.after reloading).reports =
        [{ source := "supervisor", key := some "7", failure := .task (.fail "late") }] ∧
      Faithful managed.name (managed.world.after reloading) (managed.world.log reloading) := by
  have horderly : managed.world.orderly reloading = true := by decide +kernel
  exact ⟨horderly, by decide +kernel, by decide +kernel, by decide +kernel,
    histories_consist_of_blocks managed reloading horderly⟩

end Lifecycle.Supervisor.Scenario
