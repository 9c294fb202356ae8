import Lifecycle.Resource.Cell
import Mathlib.Data.List.Basic
import Mathlib.Data.List.Induction

/-!
# The history of a resource

A log tells in order what loads do and what is done to resources from outside.  In a legal log a
load takes its course, and nothing is done by a load once a later load for its key has begun.  When
only the loads of one key write to a resource, its history is then made of one block for each load.
-/

namespace Lifecycle.Resource

/-- What a load does.  It is seeded before its body is called; if the body fails, that is reported,
and the load is settled. -/
inductive Deed (α : Type) where
  | seeded (o : Outcome α)
  | wrote (o : Outcome α)
  | reported (e : TaskError)
  | returned (r : Except TaskError Unit)
  | failed (e : TaskError)
  | settled (o : Outcome α)

structure Loader (α : Type) where
  task : Nat
  key : Value
  cell : Nat
  load : Load α

inductive Line (α : Type) where
  | load (who : Loader α) (d : Deed α)
  | set (cell : Nat) (o : Outcome α)
  | report (e : TaskError)

variable {α : Type}

namespace Deed

def write? : Deed α → Option (Outcome α)
  | seeded o | wrote o | settled o => some o
  | _ => none

def report? : Deed α → Option TaskError
  | reported e | failed e => some e
  | _ => none

def isOwn : Deed α → Bool
  | wrote _ | reported _ => true
  | _ => false

def isPending : Deed α → Bool
  | returned (.error e) => !e.isCancellation
  | failed _ => true
  | _ => false

end Deed

namespace Line

def touches (c : Nat) : Line α → Bool
  | load who _ => who.cell == c
  | set cell _ => cell == c
  | report _ => false

def writeTo? (c : Nat) : Line α → Option (Outcome α)
  | load who d => if who.cell = c then d.write? else none
  | set cell o => if cell = c then some o else none
  | report _ => none

def deedOf? (i : Nat) : Line α → Option (Deed α)
  | load who d => if who.task = i then some d else none
  | _ => none

def key? : Line α → Option Value
  | load who _ => some who.key
  | set _ _ | report _ => none

def report? (source : String) : Line α → Option Report
  | load who d => d.report?.map (Resource.report source who.key)
  | set _ _ => none
  | report e => some { source, failure := .task e }

end Line

def writesTo (c : Nat) (log : List (Line α)) : List (Outcome α) := log.filterMap (Line.writeTo? c)

def deedsOf (i : Nat) (log : List (Line α)) : List (Deed α) := log.filterMap (Line.deedOf? i)

def block (c i : Nat) (log : List (Line α)) : List (Outcome α) :=
  (deedsOf i (log.filter (Line.touches c))).filterMap Deed.write?

def Open (l : Load α) (past : List (Deed α)) : Prop :=
  ∃ own, past = .seeded (.progress l.seed) :: own ∧ ∀ d ∈ own, d.isOwn = true

/-- What the load can do next; `last` is what the resource holds. -/
def Follows (l : Load α) (last : Option (Outcome α)) (past : List (Deed α)) : Deed α → Prop
  | .seeded o => past = [] ∧ o = .progress l.seed
  | .wrote _ | .reported _ | .returned _ => Open l past
  | .failed e => ∃ before, Open l before ∧ e.isCancellation = false ∧
      past = before ++ [.returned (.error e)]
  | .settled o => ∃ before e, Open l before ∧ e.isCancellation = false ∧
      past = before ++ [.returned (.error e), .failed e] ∧
      o = .error e (if l.keepsData then last.bind Outcome.data else none)

def Admits (log : List (Line α)) : Line α → Prop
  | .load who d =>
      (∀ other d', .load other d' ∈ log → other.key = who.key → other.task ≤ who.task) ∧
      (∀ other d', .load other d' ∈ log → other.task = who.task → other = who) ∧
      Follows who.load (writesTo who.cell log).getLast? (deedsOf who.task log) d
  | .set _ _ | .report _ => True

inductive Legal : List (Line α) → Prop
  | nil : Legal []
  | snoc {log : List (Line α)} {line : Line α} (legal : Legal log) (admitted : Admits log line) :
      Legal (log ++ [line])

def Exclusive (c : Nat) (key : Value) (log : List (Line α)) : Prop :=
  ∀ line ∈ log, line.touches c = true → line.key? = some key

instance (c : Nat) (key : Value) (log : List (Line α)) : Decidable (Exclusive c key log) :=
  inferInstanceAs (Decidable (∀ line ∈ log, line.touches c = true → line.key? = some key))

/-- What a load has done, from its first write on.  Without a load there is nothing. -/
inductive Block (l : Load α) : List (Deed α) → Prop
  | absent : Block l []
  | begun (own : List (Deed α)) (body : ∀ d ∈ own, d.isOwn = true) :
      Block l (.seeded (.progress l.seed) :: own)
  | returned (own : List (Deed α)) (body : ∀ d ∈ own, d.isOwn = true) (r : Except TaskError Unit)
      (calm : ∀ e, r = .error e → e.isCancellation = true) :
      Block l (.seeded (.progress l.seed) :: own ++ [.returned r])
  | failed (own : List (Deed α)) (body : ∀ d ∈ own, d.isOwn = true) (e : TaskError)
      (failure : e.isCancellation = false) :
      Block l (.seeded (.progress l.seed) :: own ++ [.returned (.error e), .failed e,
        .settled (.error e (if l.keepsData then
          ((own.filterMap Deed.write?).getLastD (.progress l.seed)).data else none))])

variable {log more : List (Line α)} {line : Line α} {c i j n : Nat} {key : Value} {who : Loader α}
  {d : Deed α} {l : Load α} {past : List (Deed α)}

/-! ## Logs that grow -/

@[simp] theorem deedsOf_nil (i : Nat) : deedsOf i ([] : List (Line α)) = [] := rfl

@[simp] theorem deedsOf_append (i : Nat) (log more : List (Line α)) :
    deedsOf i (log ++ more) = deedsOf i log ++ deedsOf i more := List.filterMap_append

@[simp] theorem writesTo_append (c : Nat) (log more : List (Line α)) :
    writesTo c (log ++ more) = writesTo c log ++ writesTo c more := List.filterMap_append

@[simp] theorem block_append (c i : Nat) (log more : List (Line α)) :
    block c i (log ++ more) = block c i log ++ block c i more := by
  simp [block]

theorem deedsOf_eq_nil (h : ∀ who d, .load who d ∈ log → who.task ≠ i) : deedsOf i log = [] := by
  rw [deedsOf, List.filterMap_eq_nil_iff]
  intro line hline
  cases line with
  | load who d => exact if_neg (h who d hline)
  | set => rfl
  | report => rfl

theorem mem_deedsOf (h : .load who d ∈ log) : d ∈ deedsOf who.task log :=
  List.mem_filterMap.mpr ⟨_, h, if_pos rfl⟩

theorem line_of_mem_deedsOf
    (known : ∀ other d, .load other d ∈ log → other.task = who.task → other = who)
    (mem : d ∈ deedsOf who.task log) : .load who d ∈ log := by
  obtain ⟨line, hline, hdeed⟩ := List.mem_filterMap.mp mem
  cases line with
  | load other d' =>
      simp only [Line.deedOf?, Option.ite_none_right_eq_some, Option.some.injEq] at hdeed
      obtain ⟨htask, rfl⟩ := hdeed
      obtain rfl := known other _ hline htask
      exact hline
  | set | report => cases hdeed

theorem mem_writesTo
    (known : ∀ other d, .load other d ∈ log → other.task = who.task → other = who)
    (mem : d ∈ deedsOf who.task log) {o : Outcome α} (write : d.write? = some o) :
    o ∈ writesTo who.cell log :=
  List.mem_filterMap.mpr ⟨_, line_of_mem_deedsOf known mem, (if_pos rfl).trans write⟩

theorem block_eq_nil (h : ∀ who d, .load who d ∈ log → who.cell = c → who.task ≠ i) :
    block c i log = [] := by
  rw [block, deedsOf_eq_nil fun who d hline => ?_, List.filterMap_nil]
  obtain ⟨hmem, htouches⟩ := List.mem_filter.mp hline
  exact h who d hmem (beq_iff_eq.mp htouches)

theorem block_eq_writes
    (known : ∀ other d, .load other d ∈ log → other.task = who.task → other = who) :
    block who.cell who.task log = (deedsOf who.task log).filterMap Deed.write? := by
  rw [block, deedsOf, deedsOf, List.filterMap_filter]
  congr 1
  apply List.filterMap_congr
  intro line hline
  cases line with
  | set => simp [Line.deedOf?]
  | report => simp [Line.deedOf?]
  | load other d =>
      by_cases htask : other.task = who.task
      · rw [known other d hline htask]
        simp [Line.touches]
      · simp [Line.deedOf?, htask]

theorem Exclusive.of_append (h : Exclusive c key (log ++ more)) : Exclusive c key log :=
  fun line hline => h line (List.mem_append_left _ hline)

theorem Line.eq_load (h : line.key? = some key) : ∃ who d, line = .load who d ∧ who.key = key := by
  cases line with
  | load who d => exact ⟨who, d, rfl, Option.some.inj h⟩
  | set | report => cases h

/-! ## One more line -/

theorem deedsOf_singleton (i : Nat) (who : Loader α) (d : Deed α) :
    deedsOf i [.load who d] = if who.task = i then [d] else [] := by
  by_cases hi : who.task = i <;> simp [deedsOf, Line.deedOf?, hi]

theorem block_singleton (i : Nat) (who : Loader α) (d : Deed α) :
    block who.cell i [.load who d] = if who.task = i then d.write?.toList else [] := by
  by_cases hi : who.task = i <;>
    cases hd : d.write? <;> simp [block, deedsOf, Line.touches, Line.deedOf?, hi, hd]

theorem writesTo_singleton (who : Loader α) (d : Deed α) :
    writesTo who.cell [.load who d] = d.write?.toList := by
  cases hd : d.write? <;> simp [writesTo, Line.writeTo?, hd]

theorem writesTo_untouched (h : line.touches c = false) : writesTo c [line] = [] := by
  cases line with
  | load who d =>
      have hcell : who.cell ≠ c := beq_eq_false_iff_ne.mp h
      simp [writesTo, Line.writeTo?, hcell]
  | set cell o => simpa [writesTo, Line.writeTo?] using beq_eq_false_iff_ne.mp h
  | report e => rfl

theorem block_untouched (h : line.touches c = false) (i : Nat) : block c i [line] = [] := by
  simp [block, h]

/-! ## Blocks do not interleave -/

theorem flatMap_range_eq {β : Type} {f : Nat → List β} (le : j ≤ n) (none : ∀ i, j ≤ i → f i = []) :
    (List.range n).flatMap f = (List.range j).flatMap f := by
  induction le with
  | refl => rfl
  | @step n hle ih =>
      rw [List.range_succ, List.flatMap_append, ih, List.flatMap_singleton, none n hle,
        List.append_nil]

theorem Legal.writes_eq (legal : Legal log) (exclusive : Exclusive c key log)
    (bound : ∀ who d, .load who d ∈ log → who.cell = c → who.task < n) :
    writesTo c log = (List.range n).flatMap fun i => block c i log := by
  induction legal generalizing n with
  | nil => simp [writesTo, block]
  | @snoc log line legal admitted ih =>
      have hbound : ∀ who d, .load who d ∈ log → who.cell = c → who.task < n :=
        fun who d hline => bound who d (List.mem_append_left _ hline)
      have hlast := exclusive line (List.mem_append_right _ (List.mem_singleton_self _))
      by_cases htouches : line.touches c = true
      · -- No later task has a block yet, so the new line goes to the end of the last one.
        obtain ⟨who, d, rfl, hkey⟩ := Line.eq_load (hlast htouches)
        obtain rfl : who.cell = c := beq_iff_eq.mp htouches
        have hlater : ∀ other d', .load other d' ∈ log → other.cell = who.cell →
            other.task < who.task + 1 := by
          intro other d' hother hcell
          have hother' : some other.key = some key :=
            exclusive _ (List.mem_append_left _ hother) (beq_iff_eq.mpr hcell)
          exact Nat.lt_succ_of_le
            (admitted.1 other d' hother ((Option.some.inj hother').trans hkey.symm))
        have hself := bound who d (List.mem_append_right _ (List.mem_singleton_self _)) rfl
        have hnone (j : Nat) (hj : who.task < j) : block who.cell j log = [] :=
          block_eq_nil fun other d' hother hcell heq => by
            have := hlater other d' hother hcell
            omega
        rw [writesTo_append, ih exclusive.of_append hlater, writesTo_singleton,
          flatMap_range_eq (j := who.task + 1) hself fun j hj => ?_]
        · rw [List.range_succ, List.flatMap_append, List.flatMap_append, List.append_assoc]
          congr 1
          · apply List.flatMap_congr
            intro j hj
            rw [block_append, block_singleton, if_neg (Nat.ne_of_gt (List.mem_range.mp hj)),
              List.append_nil]
          · rw [List.flatMap_singleton, List.flatMap_singleton, block_append, block_singleton,
              if_pos rfl]
        · rw [block_append, hnone j hj, block_singleton, if_neg (by omega)]
          rfl
      · have huntouched : line.touches c = false := Bool.eq_false_iff.mpr htouches
        simp only [writesTo_append, block_append, writesTo_untouched huntouched,
          block_untouched huntouched, List.append_nil]
        exact ih exclusive.of_append hbound

theorem Legal.last_eq (legal : Legal log) (exclusive : Exclusive who.cell who.key log)
    (latest : ∀ other d, .load other d ∈ log → other.key = who.key → other.task ≤ who.task)
    (begun : block who.cell who.task log ≠ []) :
    (writesTo who.cell log).getLast? = (block who.cell who.task log).getLast? := by
  have hbound : ∀ other d, .load other d ∈ log → other.cell = who.cell →
      other.task < who.task + 1 := by
    intro other d hother hcell
    have hkey : some other.key = some who.key := exclusive _ hother (beq_iff_eq.mpr hcell)
    exact Nat.lt_succ_of_le (latest other d hother (Option.some.inj hkey))
  rw [legal.writes_eq exclusive hbound, List.range_succ, List.flatMap_append,
    List.flatMap_singleton, List.getLast?_append_of_ne_nil _ begun]

/-! ## The course of a load -/

theorem open_append_own (h : Open l past) (own : d.isOwn = true) : Open l (past ++ [d]) := by
  obtain ⟨before, rfl, hbefore⟩ := h
  refine ⟨before ++ [d], rfl, fun e he => ?_⟩
  rcases List.mem_append.mp he with he | he
  · exact hbefore e he
  · rw [List.mem_singleton.mp he]
    exact own

def Complete (past : List (Deed α)) : Prop := ∀ d, past.getLast? = some d → d.isPending = false

/-- A load of a legal log has a block as soon as nothing is missing, and until then it is about to
report a failure, or to write it. -/
def Course (l : Load α) (past : List (Deed α)) : Prop :=
  Block l past ∨ ∃ before e, Open l before ∧ e.isCancellation = false ∧
    (past = before ++ [.returned (.error e)] ∨
      past = before ++ [.returned (.error e), .failed e])

theorem Complete.nil : Complete ([] : List (Deed α)) := by
  rintro _ ⟨⟩

theorem Open.complete (h : Open l past) : Complete past := by
  obtain ⟨own, rfl, hown⟩ := h
  intro d hlast
  rcases List.mem_cons.mp (List.mem_of_getLast? hlast) with rfl | hmem
  · rfl
  · have := hown d hmem
    cases d with
    | wrote | reported => rfl
    | seeded | returned | failed | settled => cases this

theorem Open.course (h : Open l past) : Course l past := by
  obtain ⟨own, rfl, hown⟩ := h
  exact .inl (.begun own hown)

theorem Follows.course {last : Option (Outcome α)} (h : Follows l last past d)
    (held : past.filterMap Deed.write? ≠ [] → last = (past.filterMap Deed.write?).getLast?) :
    Course l (past ++ [d]) := by
  cases d with
  | seeded o =>
      obtain ⟨rfl, rfl⟩ := h
      exact .inl (.begun [] nofun)
  | wrote o => exact (open_append_own h rfl).course
  | reported e => exact (open_append_own h rfl).course
  | returned r =>
      by_cases hcalm : ∀ e, r = .error e → e.isCancellation = true
      · obtain ⟨own, rfl, hown⟩ := h
        exact .inl (.returned own hown r hcalm)
      · push Not at hcalm
        obtain ⟨e, rfl, hfailure⟩ := hcalm
        exact .inr ⟨past, e, h, Bool.eq_false_iff.mpr hfailure, .inl rfl⟩
  | failed e =>
      obtain ⟨before, hopen, hfailure, rfl⟩ := h
      rw [List.append_assoc]
      exact .inr ⟨before, e, hopen, hfailure, .inr rfl⟩
  | settled o =>
      obtain ⟨before, e, ⟨own, rfl, hown⟩, hfailure, rfl, rfl⟩ := h
      have hwrites : (Deed.seeded (.progress l.seed) :: own ++
          [Deed.returned (.error e), Deed.failed e]).filterMap Deed.write? =
            .progress l.seed :: own.filterMap Deed.write? := by
        simp [Deed.write?]
      rw [hwrites] at held
      rw [held (List.cons_ne_nil _ _), List.getLast?_cons, List.append_assoc,
        ← List.getLastD_eq_getLast?]
      exact .inl (.failed own hown e hfailure)

theorem Legal.course (legal : Legal log) (exclusive : Exclusive who.cell who.key log)
    (known : ∀ other d, .load other d ∈ log → other.task = who.task → other = who) :
    Course who.load (deedsOf who.task log) := by
  induction legal with
  | nil => exact .inl .absent
  | @snoc log line legal admitted ih =>
      have hknown : ∀ other d, .load other d ∈ log → other.task = who.task → other = who :=
        fun other d hline => known other d (List.mem_append_left _ hline)
      have hcourse := ih exclusive.of_append hknown
      rw [deedsOf_append]
      cases line with
      | set c o =>
          rw [show deedsOf who.task [Line.set c o] = [] from rfl, List.append_nil]
          exact hcourse
      | report e =>
          rw [show deedsOf who.task [Line.report e] = ([] : List (Deed α)) from rfl,
            List.append_nil]
          exact hcourse
      | load other d =>
          rw [deedsOf_singleton]
          by_cases htask : other.task = who.task
          · obtain rfl := known other d (List.mem_append_right _ (List.mem_singleton_self _)) htask
            obtain ⟨hlatest, _, hfollows⟩ := admitted
            rw [if_pos rfl]
            refine hfollows.course fun hbegun => ?_
            -- The data that a last write keeps is read off the resource, not off the block.
            rw [← block_eq_writes hknown] at hbegun ⊢
            exact legal.last_eq exclusive.of_append hlatest hbegun
          · rw [if_neg htask, List.append_nil]
            exact hcourse

theorem Course.block (h : Course l past) (complete : Complete past) : Block l past := by
  rcases h with hblock | ⟨before, e, _, hfailure, rfl | rfl⟩
  · exact hblock
  · have := complete (.returned (.error e)) (by simp)
    simp [Deed.isPending, hfailure] at this
  · have := complete (.failed e) (by simp)
    simp [Deed.isPending] at this

end Lifecycle.Resource
