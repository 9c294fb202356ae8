import Lifecycle.Proofs.Resource.Crew

/-!
# The diary of the resources

The diary of a run tells when loads are launched, when they begin, and what is written to the
resources, in order.  `Dated` says that it is true of a world; each single change keeps that, with
the entry that tells of it.
-/

namespace Lifecycle.Supervisor.Scenario

open HasExecutor
open Resource

abbrev Policy := Option (Option Value × Bool)

inductive Stir where
  | launched (i c : Nat) (policy : Policy)
  | began (i c : Nat) (o : Outcome Value)
  | wrote (c : Nat) (o : Outcome Value)
  deriving DecidableEq, Repr

abbrev Diary := List Stir

def Stir.writeTo? (c : Nat) : Stir → Option (Outcome Value)
  | .launched _ _ _ => none
  | .began _ cell o | .wrote cell o => if cell = c then some o else none

def writesIn (c : Nat) (diary : Diary) : List (Outcome Value) := diary.filterMap (Stir.writeTo? c)

/-- The data that the resource holds once the diary has come about. -/
def World.held (w : World) (c : Nat) (diary : Diary) : Option Value :=
  ((writesIn c diary).getLastD (w.cell c).initial).data

/-! ## The diary of a run -/

namespace World

def launchStirs (w : World) (resource : Option String) (policy : Policy) : Diary :=
  if w.owned && w.managed then
    resource.toList.map fun r => .launched w.bodies.length (w.cellNamed r).1 policy
  else []

end World

def forwardedTo (c : Nat) : StreamItem → Diary
  | .pause _ => []
  | .outcome o => [.wrote c o]

def itemStirs (i : Nat) (load : Option (Nat × Load Value)) (w : World) : Item → Diary
  | .launch _ _ _ resource policy => w.launchStirs resource policy
  | .set o => load.toList.map fun load => .wrote load.1 o
  | .emitAll items =>
      match load with
      | none => []
      | some (c, _) =>
          if w.supervisor.isCancelled i then []
          else tally (forwardItem i c) (fun _ => forwardedTo c) w items
  | _ => []

def endStirs (w : World) (load : Option (Nat × Load Value)) (r : Except TaskError Unit) : Diary :=
  match load with
  | none => []
  | some (c, l) =>
      match l.conclude (w.cell c) r with
      | (none, _) => []
      | (some _, cell, _) => [.wrote c cell.get]

def bodyStirs (w : World) (i : Nat) (body : Body) : Diary :=
  tally (act i body.name body.load) (itemStirs i body.load) w body.rest ++
    match runScript (act i body.name body.load) w body.rest with
    | (v, .completed) => endStirs v body.load (.ok ())
    | (v, .finished (.gaveUp e)) => endStirs v body.load (.error e)
    | _ => []

namespace World

/-- What a task does in its turn. -/
def stirs (w : World) : Task → Diary
  | .program (.supervised i (some body)) => bodyStirs w i body
  | .program (.supervised i none) =>
      if (w.supervisor.awaits i).isSome || w.supervisor.isCancelled i then []
      else
        let (v, body) := callBody (Hosting.input w (.begin i)) i
        body.load.toList.map (fun load => .began i load.1 (.progress load.2.seed)) ++
          bodyStirs v i body
  | _ => []

def stirsOf (w : World) : Act → Diary
  | .step (.launch _ _ _ resource policy) => w.launchStirs resource policy
  | .step (.set name o) => [.wrote (w.cellNamed name).1 o]
  | .turn id =>
      if w.executor.doomed.contains id then []
      else ((w.executor.task? id).map (update w (·.call id)).stirs).getD []
  | _ => []

def diary (w : World) : List Act → Diary
  | [] => []
  | a :: rest => w.stirsOf a ++ (w.perform a).diary rest

end World

/-! ## The form of a diary -/

def World.loadAfter (w : World) (c : Nat) (diary : Diary) (policy : Policy) : Load Value :=
  policy.elim { seed := w.held c diary } fun given => { seed := given.1, keepsData := given.2 }

structure Dated (w : World) (diary : Diary) : Prop where
  writes : ∀ c, (w.cell c).writes = writesIn c diary
  named : ∀ r ∈ w.resources, r.2 < w.cells.length
  loads : ∀ i c l, w.bodies[i]?.bind Body.load = some (c, l) →
    c < w.cells.length ∧ ∃ policy, .launched i c policy ∈ diary
  launched : ∀ past i c policy, past ++ [.launched i c policy] <+: diary →
    w.bodies[i]?.bind Body.load = some (c, w.loadAfter c past policy)
  once : ∀ past i c policy, past ++ [.launched i c policy] <+: diary →
    ∀ k given, .launched i k given ∉ past
  began : ∀ past i c o, past ++ [.began i c o] <+: diary →
    ∃ policy before, before ++ [.launched i c policy] <+: past ∧
      o = .progress (w.loadAfter c before policy).seed

variable {v w : World} {diary : Diary} {i c : Nat} {s : Stir} {o : Outcome Value} {l : Load Value}

theorem dated_fresh (s : Setup) : Dated s.world [] where
  writes _ := rfl
  named _ := nofun
  loads _ _ _ := nofun
  launched past _ _ _ h := by simp at h
  once past _ _ _ h := by simp at h
  began past _ _ _ h := by simp at h

@[simp] theorem writesIn_append (c : Nat) (diary more : Diary) :
    writesIn c (diary ++ more) = writesIn c diary ++ writesIn c more := List.filterMap_append

theorem moment_concat {past : Diary} {t : Stir} (h : past ++ [t] <+: diary ++ [s]) :
    past ++ [t] <+: diary ∨ past = diary ∧ t = s := by
  rcases List.prefix_concat_iff.mp h with heq | hbefore
  · obtain ⟨hpast, hlast⟩ := List.append_inj' heq rfl
    exact .inr ⟨hpast, List.singleton_inj.mp hlast⟩
  · exact .inl hbefore

theorem World.loadAfter_congr (initial : (v.cell c).initial = (w.cell c).initial) :
    v.loadAfter c = w.loadAfter c := by
  funext diary policy
  simp only [World.loadAfter, World.held, initial]

structure Grows (w v : World) : Prop where
  length : w.cells.length ≤ v.cells.length
  initial : ∀ c < w.cells.length, (v.cell c).initial = (w.cell c).initial
  named : (∀ r ∈ w.resources, r.2 < w.cells.length) →
    ∀ r ∈ v.resources, r.2 < v.cells.length

theorem load_extended {p : Nat × Load Value} (w : World) (body : Body) :
    (w.bodies ++ [body])[i]?.bind Body.load = some p ↔
      w.bodies[i]?.bind Body.load = some p ∨ i = w.bodies.length ∧ body.load = some p := by
  rcases Nat.lt_trichotomy i w.bodies.length with hlt | rfl | hgt
  · rw [List.getElem?_append_left hlt]
    simp [hlt.ne]
  · simp
  · rw [List.getElem?_eq_none (by simp; omega), List.getElem?_eq_none (Nat.le_of_lt hgt)]
    simp [hgt.ne']

theorem bodies_cellNamed (w : World) (name : String) : (w.cellNamed name).2.bodies = w.bodies := by
  unfold World.cellNamed
  split <;> rfl

theorem grows_modifyCell (w : World) (c : Nat) {f : Cell Value → Cell Value}
    (initial : (f (w.cell c)).initial = (w.cell c).initial) : Grows w (w.modifyCell c f) where
  length := Nat.le_of_eq (List.length_modify _ _ _).symm
  initial k hk := by
    rw [cell_modify]
    split
    · rename_i heq
      obtain ⟨rfl, _⟩ := heq
      exact initial
    · rfl
  named named r hr := Nat.lt_of_lt_of_eq (named r hr) (List.length_modify _ _ _).symm

namespace Dated

theorem known {past : Diary} {policy : Policy} (h : Dated w diary)
    (told : past ++ [.launched i c policy] <+: diary) : c < w.cells.length :=
  (h.loads i c _ (h.launched past i c policy told)).1

theorem lt_of_mem {policy : Policy} (h : Dated w diary) (mem : .launched i c policy ∈ diary) :
    i < w.bodies.length := by
  obtain ⟨before, later, rfl⟩ := List.append_of_mem mem
  have htold : before ++ [.launched i c policy] <+: before ++ .launched i c policy :: later :=
    ⟨later, by simp⟩
  have hload := h.launched before i c policy htold
  by_contra hlong
  rw [List.getElem?_eq_none (Nat.le_of_not_lt hlong)] at hload
  cases hload

theorem grow (h : Dated w diary) (grows : Grows w v) (bodies : v.bodies = w.bodies)
    (writes : ∀ c, (v.cell c).writes = writesIn c diary) : Dated v diary where
  writes := writes
  named := grows.named h.named
  loads i c l load := by
    rw [bodies] at load
    obtain ⟨hknown, hlaunched⟩ := h.loads i c l load
    exact ⟨Nat.lt_of_lt_of_le hknown grows.length, hlaunched⟩
  launched past i c policy told := by
    rw [bodies, World.loadAfter_congr (grows.initial c (h.known told))]
    exact h.launched past i c policy told
  once := h.once
  began past i c o told := by
    obtain ⟨policy, before, hbefore, hseed⟩ := h.began past i c o told
    have hknown := h.known (hbefore.trans ((List.prefix_append _ _).trans told))
    rw [World.loadAfter_congr (grows.initial c hknown)]
    exact ⟨policy, before, hbefore, hseed⟩

theorem stir (h : Dated w diary) (grows : Grows w v) (bodies : v.bodies = w.bodies)
    (writes : ∀ c, (v.cell c).writes = writesIn c (diary ++ [s]))
    (other : ∀ i c policy, s ≠ .launched i c policy)
    (began : ∀ i c o, s = .began i c o → ∃ policy before,
      before ++ [.launched i c policy] <+: diary ∧
        o = .progress (w.loadAfter c before policy).seed) : Dated v (diary ++ [s]) where
  writes := writes
  named := grows.named h.named
  loads i c l load := by
    rw [bodies] at load
    obtain ⟨hknown, policy, hlaunched⟩ := h.loads i c l load
    exact ⟨Nat.lt_of_lt_of_le hknown grows.length, policy, List.mem_append_left _ hlaunched⟩
  launched past i c policy told := by
    rcases moment_concat told with hbefore | ⟨_, hnow⟩
    · rw [bodies, World.loadAfter_congr (grows.initial c (h.known hbefore))]
      exact h.launched past i c policy hbefore
    · exact absurd hnow.symm (other i c policy)
  once past i c policy told := by
    rcases moment_concat told with hbefore | ⟨_, hnow⟩
    · exact h.once past i c policy hbefore
    · exact absurd hnow.symm (other i c policy)
  began past i c o told := by
    obtain ⟨policy, before, hpast, hbefore, hseed⟩ : ∃ policy before,
        before ++ [.launched i c policy] <+: past ∧
          before ++ [.launched i c policy] <+: diary ∧
            o = .progress (w.loadAfter c before policy).seed := by
      rcases moment_concat told with hpast | ⟨rfl, rfl⟩
      · obtain ⟨policy, before, hbefore, hseed⟩ := h.began past i c o hpast
        exact ⟨policy, before, hbefore,
          hbefore.trans ((List.prefix_append _ _).trans hpast), hseed⟩
      · obtain ⟨policy, before, hbefore, hseed⟩ := began i c o rfl
        exact ⟨policy, before, hbefore, hbefore, hseed⟩
    rw [World.loadAfter_congr (grows.initial c (h.known hbefore))]
    exact ⟨policy, before, hpast, hseed⟩

theorem launch (h : Dated w diary) (body : Body) (policy : Policy)
    (load : ∀ c l, body.load = some (c, l) →
      c < w.cells.length ∧ l = w.loadAfter c diary policy) :
    Dated { w with bodies := w.bodies ++ [body] } (diary ++
      body.load.toList.map fun load => .launched w.bodies.length load.1 policy) := by
  cases hload : body.load with
  | none =>
      rw [Option.toList_none, List.map_nil, List.append_nil]
      refine ⟨h.writes, h.named, fun i c l hl => ?_, fun past i c policy told => ?_, h.once,
        h.began⟩
      · rcases (load_extended w body).mp hl with hl | ⟨_, hl⟩
        · exact h.loads i c l hl
        · rw [hload] at hl
          cases hl
      · exact (load_extended w body).mpr (.inl (h.launched past i c policy told))
  | some p =>
      obtain ⟨c, l⟩ := p
      obtain ⟨hknown, hl⟩ := load c l hload
      rw [Option.toList_some, List.map_singleton]
      constructor
      · intro c
        rw [writesIn_append]
        exact (h.writes c).trans (List.append_nil _).symm
      · exact h.named
      · intro i k m hm
        rcases (load_extended w body).mp hm with hm | ⟨rfl, hm⟩
        · obtain ⟨hk, policy, hlaunched⟩ := h.loads i k m hm
          exact ⟨hk, policy, List.mem_append_left _ hlaunched⟩
        · obtain ⟨rfl, rfl⟩ : c = k ∧ l = m := by simpa [hload] using hm
          exact ⟨hknown, policy, List.mem_append_right _ (List.mem_singleton_self _)⟩
      · intro past i k given told
        refine (load_extended w body).mpr ?_
        rcases moment_concat told with hbefore | ⟨rfl, hnow⟩
        · exact .inl (h.launched past i k given hbefore)
        · obtain ⟨rfl, rfl, rfl⟩ := Stir.launched.inj hnow
          exact .inr ⟨rfl, by rw [hload, hl]; rfl⟩
      · intro past i k given told
        rcases moment_concat told with hbefore | ⟨rfl, hnow⟩
        · exact h.once past i k given hbefore
        · -- The new task has a number that no task had before.
          intro k' given' hmem
          obtain ⟨rfl, _⟩ := Stir.launched.inj hnow
          exact Nat.lt_irrefl _ (h.lt_of_mem hmem)
      · intro past i k o told
        rcases moment_concat told with hbefore | ⟨_, hnow⟩
        · exact h.began past i k o hbefore
        · cases hnow

theorem still (h : Dated w diary) (cells : v.cells = w.cells) (bodies : v.bodies = w.bodies)
    (resources : ∀ r ∈ v.resources, r ∈ w.resources) : Dated v diary := by
  have hcell (c : Nat) : v.cell c = w.cell c := by rw [World.cell, cells, World.cell]
  refine h.grow ⟨Nat.le_of_eq (by rw [cells]), fun c _ => by rw [hcell], fun named r hr => ?_⟩
    bodies fun c => ?_
  · rw [cells]
    exact named r (resources r hr)
  · rw [hcell]
    exact h.writes c

theorem note (h : Dated w diary) (name : String) (n : Note) : Dated (w.note name n) diary :=
  h.still rfl rfl fun _ h => h

theorem performAll (h : Dated w diary) (effects : List Effect) :
    Dated (effects.foldl Hosting.perform w) diary := by
  induction effects generalizing w with
  | nil => exact h
  | cons e rest ih =>
      refine ih ?_
      cases e <;> exact h.still rfl rfl fun _ h => h

theorem input (h : Dated w diary) (given : Input) : Dated (Hosting.input w given) diary :=
  performAll (h.still rfl rfl (fun _ h => h) : Dated (stepped w given) diary) _

theorem touch (h : Dated w diary) (c : Nat) {f : Cell Value → Cell Value}
    (same : ∀ cell, (f cell).writes = cell.writes ∧ (f cell).initial = cell.initial) :
    Dated (w.modifyCell c f) diary := by
  refine h.grow (grows_modifyCell w c (same _).2) rfl fun k => ?_
  rw [cell_modify]
  split
  · exact (same _).1.trans (h.writes k)
  · exact h.writes k

theorem writes_modifyCell (h : Dated w diary) (known : c < w.cells.length)
    {f : Cell Value → Cell Value} (set : f (w.cell c) = (w.cell c).set o)
    (told : ∀ k, s.writeTo? k = if c = k then some o else none) (k : Nat) :
    ((w.modifyCell c f).cell k).writes = writesIn k (diary ++ [s]) := by
  have hnow : writesIn k [s] = if c = k then [o] else [] := by
    by_cases hk : c = k <;> simp [writesIn, told, hk]
  rw [cell_modify, writesIn_append, ← h.writes, hnow]
  by_cases hk : c = k
  · subst hk
    rw [if_pos ⟨rfl, known⟩, if_pos rfl, set]
    rfl
  · rw [if_neg fun h => hk h.1, if_neg hk, List.append_nil]

theorem write (h : Dated w diary) (known : c < w.cells.length) {f : Cell Value → Cell Value}
    (set : f (w.cell c) = (w.cell c).set o) :
    Dated (w.modifyCell c f) (diary ++ [.wrote c o]) := by
  refine h.stir (grows_modifyCell w c ?_) rfl (h.writes_modifyCell known set fun _ => rfl)
    nofun nofun
  rw [set]
  rfl

theorem begin (h : Dated w diary) (load : w.bodies[i]?.bind Body.load = some (c, l)) :
    Dated (w.modifyCell c l.start) (diary ++ [.began i c (.progress l.seed)]) := by
  obtain ⟨hknown, policy, hmem⟩ := h.loads i c l load
  refine h.stir (grows_modifyCell w c rfl) rfl (h.writes_modifyCell hknown rfl fun _ => rfl)
    nofun ?_
  rintro _ _ _ ⟨⟩
  obtain ⟨before, later, hsplit⟩ := List.append_of_mem hmem
  have htold : before ++ [.launched i c policy] <+: diary := ⟨later, by simp [hsplit]⟩
  have hload := (h.launched before i c policy htold).symm.trans load
  obtain rfl : w.loadAfter c before policy = l := congrArg Prod.snd (Option.some.inj hload)
  exact ⟨policy, before, htold, rfl⟩

theorem data_eq (h : Dated w diary) (c : Nat) : (w.cell c).data = w.held c diary := by
  rw [Cell.data, Cell.get, h.writes, World.held]

theorem addCell (h : Dated w diary) (name : String) {cell : Cell Value} (empty : cell.writes = [])
    {resources : List (String × Nat)} (old : ∀ r ∈ resources, r ∈ w.resources) :
    Dated { w with
      cells := w.cells ++ [cell], resources := resources ++ [(name, w.cells.length)] } diary := by
  refine h.grow ⟨by simp, fun c hc => ?_, fun named r hr => ?_⟩ rfl fun c => ?_
  · simp only [World.cell, List.getElem?_append_left hc]
  · rw [List.length_append, List.length_singleton]
    rcases List.mem_append.mp hr with hr | hr
    · exact Nat.lt_succ_of_lt (named r (old r hr))
    · rw [List.mem_singleton.mp hr]
      exact Nat.lt_succ_self _
  · rw [← h.writes]
    simp only [World.cell, List.getElem?_append]
    split
    · rfl
    · rename_i hlong
      rw [List.getElem?_eq_none (Nat.le_of_not_lt hlong)]
      cases c - w.cells.length <;> simp [empty]

theorem cellNamed (h : Dated w diary) (name : String) : Dated (w.cellNamed name).2 diary := by
  unfold World.cellNamed
  split
  · exact h
  · exact h.addCell name rfl fun _ h => h

theorem launches (h : Dated w diary) (key : Value) (name : String) (rest : List Item)
    (resource : Option String) (policy : Policy) :
    Dated (w.launch key name rest resource policy).1
      (diary ++ w.launchStirs resource policy) := by
  unfold World.launch
  by_cases hopen : (w.owned && (resource.isNone || w.managed)) = true
  · rw [if_pos hopen]
    cases resource with
    | none =>
        have hlaunch := (h.launch { name, rest } policy nofun).input (.launch key)
        rw [show w.launchStirs none policy = [] from ite_self _]
        exact hlaunch
    | some r =>
        have hstirs : w.launchStirs (some r) policy =
            [.launched (w.cellNamed r).2.bodies.length (w.cellNamed r).1 policy] := by
          rw [bodies_cellNamed]
          exact if_pos hopen
        rw [hstirs]
        refine ((h.cellNamed r).launch ⟨name, rest, some ((w.cellNamed r).1, _)⟩ policy
          fun c l hl => ?_).input (.launch key)
        obtain ⟨rfl, rfl⟩ := Prod.mk.inj (Option.some.inj hl)
        refine ⟨cellNamed_lt h.named r, ?_⟩
        rw [World.loadAfter, ← (h.cellNamed r).data_eq]
        cases policy <;> rfl
  · rw [if_neg hopen]
    have hnone : w.launchStirs resource policy = [] := by
      cases resource with
      | none => exact ite_self _
      | some r => exact if_neg hopen
    rw [hnone, List.append_nil]
    exact h

end Dated

end Lifecycle.Supervisor.Scenario
