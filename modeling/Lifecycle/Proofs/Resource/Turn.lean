import Lifecycle.Proofs.Resource.Crew

/-!
# The turn of a body

In its turn a body writes and reports, launches and cancels.  When it returns, what its load has to
do follows in the same turn.
-/

namespace Lifecycle.Supervisor.Scenario

open HasExecutor
open Resource

variable {source : String} {turn : Option TaskId} {acting : Option Nat} {v w : World} {log : Record}
  {id : TaskId}
  {i c : Nat} {who : Loader Value} {who? : Option (Loader Value)} {d : Deed Value} {e : TaskError}
  {o : Outcome Value} {l : Load Value} {load : Option (Nat × Load Value)}

@[simp] theorem linesOf_nil (who? : Option (Loader Value)) : linesOf who? [] = [] := by
  cases who? <;> rfl

@[simp] theorem linesOf_none (deeds : List (Deed Value)) : linesOf none deeds = [] := rfl

@[simp] theorem linesOf_some (who : Loader Value) (deeds : List (Deed Value)) :
    linesOf (some who) deeds = deeds.map (.load who) := List.flatMap_singleton _ _

@[simp] theorem linesOf_append (who? : Option (Loader Value)) (deeds more : List (Deed Value)) :
    linesOf who? (deeds ++ more) = linesOf who? deeds ++ linesOf who? more := by
  cases who? with
  | none => rfl
  | some who => simp [linesOf]

def loadOf (who? : Option (Loader Value)) : Option (Nat × Load Value) :=
  who?.map fun who => (who.cell, who.load)

/-! ## One deed -/

theorem Aside.write (ordered : w.executor.Ordered turn) (known : who.cell < w.cells.length)
    {f : Cell Value → Cell Value}
    (own : (f (w.cell who.cell)).writes = (w.cell who.cell).writes ++ [o])
    (write : d.write? = some o) (silent : d.report? = none) :
    Aside turn w [.load who d] [] (w.modifyCell who.cell f) := by
  apply Aside.modifyCell ordered known
  · rw [own, writesTo_singleton, write]
    rfl
  · intro k hk
    exact writesTo_untouched (beq_eq_false_iff_ne.mpr (Ne.symm hk))
  · simp [Line.report?, silent]

theorem reportFor_eq (loader : w.loader? who.task = some who) (e : TaskError) :
    w.reportFor who.task e =
      { w with reports := w.reports ++ [Resource.report w.supervisor.name who.key e] } := by
  obtain ⟨_, hkey, _⟩ := World.loader?_eq_some_iff.mp loader
  exact reportFor_of_keyOf hkey e

theorem Aside.report (ordered : w.executor.Ordered turn) (loader : w.loader? who.task = some who)
    (silent : d.write? = none) (report : d.report? = some e) :
    Aside turn w [.load who d] [] (w.reportFor who.task e) := by
  rw [reportFor_eq loader]
  constructor
  · exact .refl ordered
  · rfl
  · rfl
  · exact (List.append_nil _).symm
  · simp [Line.report?, report]
  · exact Nat.le_refl _
  · intro c
    have hnone : writesTo c [.load who d] = [] := by simp [writesTo, Line.writeTo?, silent]
    rw [hnone, List.append_nil]
    rfl
  · exact fun named => named

theorem Aside.unseen (ordered : w.executor.Ordered turn) (who : Loader Value)
    (silent : d.write? = none) (hidden : d.report? = none) :
    Aside turn w [.load who d] [] w where
  executor := .refl ordered
  supervisor := rfl
  bodies := rfl
  results := (List.append_nil _).symm
  reports := by simp [Line.report?, hidden]
  cells := Nat.le_refl _
  writes c := by simp [writesTo, Line.writeTo?, silent]
  named named := named

theorem Kept.deed (kept : Kept source turn (some who.task) w log)
    (loader : w.loader? who.task = some who)
    (running : w.supervisor.stageOf who.task = some .running)
    (follows : Follows who.load (writesTo who.cell log).getLast? (deedsOf who.task log) d)
    (aside : Aside turn w [.load who d] [] v) :
    Kept source turn (some who.task) v (log ++ [.load who d]) := by
  refine kept.aside aside (.snoc kept.legal ⟨?_, ?_, follows⟩) ?_
    fun _ _ h => absurd h List.not_mem_nil
  · intro other d' hother hkey
    -- A later task of the key that has done something has begun, and then this one has ended.
    by_contra hlater
    have hknown := kept.known other d' hother
    obtain ⟨_, hkeyOf, _⟩ := World.loader?_eq_some_iff.mp loader
    obtain ⟨_, hkeyOf', _⟩ := World.loader?_eq_some_iff.mp hknown
    have hne : some who.task ≠ some other.task := fun heq => hlater (Option.some.inj heq).ge
    have hstarted : w.supervisor.Started other.task := by
      by_contra hfresh
      have hmem := mem_deedsOf hother
      rw [(kept.abreast other.task hne).fresh hfresh] at hmem
      cases hmem
    have hended := kept.chained.cleared other.task hstarted who.key who.task (hkey ▸ hkeyOf') hkeyOf
      (Nat.lt_of_not_le hlater)
    rw [running] at hended
    cases hended
  · exact kept.known_eq loader
  · rintro other d' hmem
    cases List.mem_singleton.mp hmem
    exact ⟨rfl, loader, by simp [running]⟩

/-! ## The script of a body -/

theorem load_eq (launched : i < w.supervisor.tasks.length) :
    w.bodies[i]?.bind Body.load = loadOf (w.loader? i) := by
  rw [World.loader?, State.keyOf, List.getElem?_eq_getElem launched]
  cases w.bodies[i]?.bind Body.load <;> rfl

/-- The body of a task works in the turn of `id`. -/
structure Working (source : String) (id : TaskId) (i : Nat) (who? : Option (Loader Value))
    (w : World) (log : Record) : Prop extends Kept source (some id) (some i) w log where
  loader : w.loader? i = who?
  running : w.supervisor.stageOf i = some .running
  opened : ∀ who, who? = some who → Open who.load (deedsOf i log)

namespace Working

theorem silent (working : Working source id i who? w log) (aside : Aside (some id) w [] [] v) :
    Working source id i who? v log where
  toKept := working.toKept.silent aside
  loader := (loader?_congr (by rw [aside.supervisor]) (by rw [aside.bodies])).trans working.loader
  running := by
    rw [aside.supervisor]
    exact working.running
  opened := working.opened

theorem note (working : Working source id i who? w log) (name : String) (n : Note) :
    Working source id i who? (w.note name n) log :=
  working.silent (.note working.ordered name n)

theorem own (working : Working source id i (some who) w log) (own : d.isOwn = true)
    (aside : Aside (some id) w [.load who d] [] v) :
    Working source id i (some who) v (log ++ [.load who d]) := by
  obtain ⟨rfl, _⟩ := World.loader?_eq_some_iff.mp working.loader
  have hopen := working.opened who rfl
  have hfollows : Follows who.load (writesTo who.cell log).getLast? (deedsOf who.task log) d := by
    cases d with
    | wrote | reported => exact hopen
    | seeded | returned | failed | settled => cases own
  constructor
  · exact working.toKept.deed working.loader working.running hfollows aside
  · exact (loader?_congr (by rw [aside.supervisor]) (by rw [aside.bodies])).trans working.loader
  · rw [aside.supervisor]
    exact working.running
  · rintro _ ⟨⟩
    rw [deedsOf_append, deedsOf_singleton, if_pos rfl]
    exact open_append_own hopen own

theorem input (working : Working source id i who? w log) {given : Input}
    (old : given.launched? = none) (free : given.task? = none) :
    Working source id i who? (Hosting.input w given) log where
  toKept := working.toKept.request old free
  loader := (loader?_input old i).trans working.loader
  running := by
    rw [supervisor_input, State.stageOf_step (by rw [free]; nofun)
      (State.lt_of_stageOf working.running)]
    exact working.running
  opened := working.opened

theorem launch (working : Working source id i who? w log) (key : Value) (name : String)
    (rest : List Item) (resource : Option String) (policy : Option (Option Value × Bool)) :
    Working source id i who? (w.launch key name rest resource policy).1 log := by
  rcases launch_cases working.toKept key name rest resource policy with
    heq | ⟨v, body, aside, known, heq⟩
  · rwa [heq]
  · have haside := working.silent aside
    have hold := State.lt_of_stageOf haside.running
    rw [heq]
    constructor
    · exact haside.toKept.launch key body known
    · rw [loader?_launch haside.bodies key body (haside.bodies ▸ hold), haside.loader]
    · rw [supervisor_input, State.stageOf_step (by simp [Input.task?]) hold]
      exact haside.running
    · exact haside.opened

theorem cancel (working : Working source id i who? w log) (key : Value) :
    Working source id i who? (w.cancel key).1 log := by
  unfold World.cancel
  split
  · change Working source id i who? (Hosting.input w (.cancel key)) log
    exact working.input rfl rfl
  · exact working

theorem write (working : Working source id i (some who) w log) {f : Cell Value → Cell Value}
    (set : f (w.cell who.cell) = (w.cell who.cell).set o) :
    Working source id i (some who) (w.modifyCell who.cell f) (log ++ [.load who (.wrote o)]) :=
  working.own rfl (.write working.ordered (working.loads i who working.loader)
    (congrArg Cell.writes set) rfl rfl)

theorem report (working : Working source id i (some who) w log) (e : TaskError) :
    Working source id i (some who) (w.reportFor i e) (log ++ [.load who (.reported e)]) := by
  have hloader := working.loader
  obtain ⟨rfl, _⟩ := World.loader?_eq_some_iff.mp hloader
  exact working.own rfl (.report working.ordered hloader rfl rfl)

theorem forwardItem (working : Working source id i (some who) w log) (item : StreamItem) :
    Working source id i (some who) (Scenario.forwardItem i who.cell w item).1
      (log ++ linesOf (some who) (forwarded item)) := by
  cases item with
  | pause p =>
      rw [forwarded, linesOf_nil, List.append_nil]
      exact working
  | outcome o =>
      have hreported : Working source id i (some who) (o.error?.elim w (w.reportFor i))
          (log ++ linesOf (some who) (o.error?.toList.map .reported)) := by
        cases o.error? with
        | none => simpa using working
        | some e => exact working.report e
      rw [forwarded, linesOf_append, ← List.append_assoc]
      refine hreported.write ?_
      cases o.error? with
      | none => rfl
      | some e =>
          obtain ⟨rfl, _⟩ := World.loader?_eq_some_iff.mp working.loader
          rw [Option.elim, reportFor_eq working.loader]
          rfl

theorem forward (working : Working source id i (some who) w log) (items : List StreamItem) :
    Working source id i (some who) (Scenario.forward w i who.cell items).1
      (log ++ linesOf (some who) (if w.supervisor.isCancelled i then [] else
        tally (Scenario.forwardItem i who.cell) (fun _ => forwarded) w items)) := by
  unfold Scenario.forward
  split
  · simpa using working
  · have hscript := runScript_keeps (fun _ => forwarded)
      (Q := fun v deeds => Working source id i (some who) v (log ++ linesOf (some who) deeds))
      (fun v deeds item h => by
        rw [linesOf_append, ← List.append_assoc]
        exact h.forwardItem item) items [] (by simpa using working)
    rw [List.nil_append] at hscript
    generalize runScript (Scenario.forwardItem i who.cell) w items = result at hscript ⊢
    obtain ⟨v, course⟩ := result
    cases course <;> exact hscript

theorem act (working : Working source id i who? w log) (name : String) (item : Item) :
    Working source id i who?
      (Scenario.act i name (loadOf who?) w item).1
      (log ++ linesOf who? (itemDeeds i (loadOf who?) w item)) := by
  have hnone {v : World} (h : Working source id i who? v log) :
      Working source id i who? v (log ++ linesOf who? []) := by
    rwa [linesOf_nil, List.append_nil]
  cases item with
  | pause p => exact hnone working
  | untilCancelled =>
      refine hnone ?_
      simp only [Scenario.act]
      split
      · exact working.note name _
      · exact working
  | sleepOrCancel ms | untilOrCancel deadline =>
      refine hnone ?_
      simp only [Scenario.act]
      split
      · exact working.note name _
      · split
        · exact working.note name _
        · exact working
  | log text => exact hnone (working.note name _)
  | token => exact hnone (working.note name _)
  | yield times => cases times <;> exact hnone working
  | launch key other rest resource policy =>
      exact hnone ((working.launch key other rest resource policy).note name _)
  | cancel key => exact hnone ((working.cancel key).note name _)
  | owned key => exact hnone (working.note name _)
  | giveUp e => exact hnone (working.note name _)
  | panic p => exact hnone working
  | set o =>
      cases who? with
      | none => exact hnone working
      | some who => exact working.write rfl
  | get | data =>
      cases who? with
      | none => exact hnone working
      | some who => exact hnone (working.note name _)
  | report e =>
      cases who? with
      | none => exact hnone working
      | some who => exact working.report e
  | emitAll items =>
      cases who? with
      | none => exact hnone working
      | some who =>
          have hforward := working.forward items
          simp only [Scenario.act, loadOf, Option.map]
          generalize Scenario.forward w i who.cell items = result at hforward ⊢
          obtain ⟨v, reaction⟩ := result
          cases reaction with
          | proceed => exact hforward.note name _
          | suspend | giveWay | finish => exact hforward

theorem script (working : Working source id i who? w log) (name : String) (rest : List Item) :
    Working source id i who?
      (runScript (Scenario.act i name (loadOf who?)) w rest).1
      (log ++ linesOf who? (tally (Scenario.act i name (loadOf who?))
        (itemDeeds i (loadOf who?)) w rest)) := by
  refine runScript_keeps
    (Q := fun v deeds => Working source id i who? v (log ++ linesOf who? deeds)) _
    (fun v deeds item h => ?_) rest [] (by simpa using working)
  rw [linesOf_append, ← List.append_assoc]
  exact h.act name item

theorem complete (working : Working source id i who? w log) : Complete (deedsOf i log) := by
  cases who? with
  | none =>
      rw [working.deedsOf_eq_nil working.loader]
      exact .nil
  | some who => exact (working.opened who rfl).complete

theorem data_eq (working : Working source id i (some who) w log) :
    (w.cell who.cell).data = (writesTo who.cell log).getLast?.bind Outcome.data := by
  have hloader := working.loader
  obtain ⟨rfl, _⟩ := World.loader?_eq_some_iff.mp hloader
  obtain ⟨own, hdeeds, _⟩ := working.opened who rfl
  have hmem : .progress who.load.seed ∈ writesTo who.cell log :=
    mem_writesTo (working.known_eq hloader)
      (hdeeds ▸ List.mem_cons_self : .seeded (.progress who.load.seed) ∈ _) rfl
  rw [Cell.data, Cell.get, working.writes, List.getLastD_eq_getLast?]
  cases hlast : (writesTo who.cell log).getLast? with
  | none =>
      rw [List.getLast?_eq_none_iff.mp hlast] at hmem
      cases hmem
  | some o => rfl

end Working

/-! ## The end of a body -/

structure Returned (source : String) (id : TaskId) (i : Nat) (w : World) (log : Record)
    (r : Except TaskError Unit) : Prop extends Kept source (some id) (some i) w log where
  running : w.supervisor.stageOf i = some .running
  complete : Complete (deedsOf i log)
  calm : ∀ e, r = .error e → e.isCancellation = false → w.loader? i = none
  told : ∀ who, w.loader? i = some who → ∃ r, Deed.returned r ∈ deedsOf i log

theorem Working.returned (working : Working source id i (some who) w log)
    (r : Except TaskError Unit) :
    Kept source (some id) (some who.task) w (log ++ [.load who (.returned r)]) := by
  have hloader := working.loader
  obtain ⟨rfl, _⟩ := World.loader?_eq_some_iff.mp hloader
  exact working.toKept.deed hloader working.running (working.opened who rfl)
    (.unseen working.ordered who rfl rfl)

theorem Working.failed (working : Working source id who.task (some who) w log)
    (failure : e.isCancellation = false) {cell : Cell Value}
    (last : cell = (w.cell who.cell).set
      (.error e (if who.load.keepsData then (w.cell who.cell).data else none))) :
    Kept source (some id) (some who.task)
      ((w.reportFor who.task e).modifyCell who.cell fun _ => cell)
      (log ++ [.load who (.returned (.error e)), .load who (.failed e),
        .load who (.settled cell.get)]) := by
  have hopen := working.opened who rfl
  have hloader := working.loader
  have hget : cell.get =
      .error e (if who.load.keepsData then (w.cell who.cell).data else none) := by
    rw [last, Cell.get, Cell.set, List.getLastD_concat]
  have hwrites : cell.writes = (w.cell who.cell).writes ++ [cell.get] := by
    rw [hget]
    exact congrArg Cell.writes last
  have hreported : Kept source (some id) (some who.task) (w.reportFor who.task e)
      (log ++ [.load who (.returned (.error e))] ++ [.load who (.failed e)]) := by
    refine (working.returned (.error e)).deed hloader working.running ?_
      (.report working.ordered hloader rfl rfl)
    exact ⟨deedsOf who.task log, hopen, failure, by simp [deedsOf, Line.deedOf?]⟩
  have hsettled : Kept source (some id) (some who.task)
      ((w.reportFor who.task e).modifyCell who.cell fun _ => cell)
      (log ++ [.load who (.returned (.error e))] ++ [.load who (.failed e)] ++
        [.load who (.settled cell.get)]) := by
    rw [reportFor_eq hloader] at hreported ⊢
    refine hreported.deed hloader working.running ?_
      (.write hreported.ordered (hreported.loads _ who hloader) hwrites rfl rfl)
    refine ⟨deedsOf who.task log, e, hopen, failure, by simp [deedsOf, Line.deedOf?], ?_⟩
    rw [hget, working.data_eq, writesTo_append, writesTo_append, writesTo_singleton,
      writesTo_singleton]
    simp [Deed.write?]
  simpa using hsettled

theorem Working.conclude (working : Working source id i who? w log) (r : Except TaskError Unit) :
    ∃ v r', Scenario.conclude w i (loadOf who?) r = (v, .ended r') ∧
      Returned source id i v
        (log ++ linesOf who? (endDeeds w (loadOf who?) r)) r' := by
  cases who? with
  | none =>
      refine ⟨w, r, rfl, ?_⟩
      rw [loadOf, Option.map_none, endDeeds, linesOf_nil, List.append_nil]
      refine ⟨working.toKept, working.running, working.complete, fun _ _ _ => working.loader, ?_⟩
      intro who loader
      rw [working.loader] at loader
      cases loader
  | some who =>
      obtain ⟨rfl, _⟩ := World.loader?_eq_some_iff.mp working.loader
      by_cases hcalm : ∀ e, r = .error e → e.isCancellation = true
      · -- The body has returned well or was cancelled: its result is passed on as it is.
        have hconclude : who.load.conclude (w.cell who.cell) r = (none, w.cell who.cell, r) := by
          cases r with
          | ok u => rfl
          | error e => exact if_pos (hcalm e rfl)
        refine ⟨w, r, by simp only [Scenario.conclude, loadOf, Option.map_some, hconclude], ?_⟩
        simp only [endDeeds, loadOf, Option.map_some, hconclude, linesOf_some, List.map_cons,
          List.map_nil]
        refine ⟨working.returned r, working.running, ?_, fun e hr hfailure => ?_, fun _ _ => ?_⟩
        · intro d hlast
          rw [deedsOf_append, deedsOf_singleton, if_pos rfl, List.getLast?_concat] at hlast
          cases hlast
          cases r with
          | ok u => rfl
          | error e => simp [Deed.isPending, hcalm e rfl]
        · rw [hcalm e hr] at hfailure
          cases hfailure
        · exact ⟨r, mem_deedsOf (List.mem_append_right _ List.mem_cons_self)⟩
      · -- The failure goes to the reporter and into the resource, and the task ends well.
        push Not at hcalm
        obtain ⟨e, rfl, hfailure⟩ := hcalm
        have hfailure := Bool.eq_false_iff.mpr hfailure
        obtain ⟨cell, hcell⟩ : ∃ cell, cell = (w.cell who.cell).set (.error e
            (if who.load.keepsData then (w.cell who.cell).data else none)) := ⟨_, rfl⟩
        have hconclude : who.load.conclude (w.cell who.cell) (.error e) =
            (some e, cell, .ok ()) := by
          rw [hcell]
          exact if_neg (by simp [hfailure])
        refine ⟨(w.reportFor who.task e).modifyCell who.cell fun _ => cell, .ok (),
          by simp only [Scenario.conclude, loadOf, Option.map_some, hconclude], ?_⟩
        simp only [endDeeds, loadOf, Option.map_some, hconclude, linesOf_some, List.map_cons,
          List.map_nil]
        refine ⟨working.failed hfailure hcell, ?_, ?_, ?_, fun _ _ => ?_⟩
        · rw [reportFor_eq working.loader]
          exact working.running
        · intro d hlast
          simp [deedsOf, Line.deedOf?] at hlast
          rw [← hlast]
          rfl
        · rintro _ ⟨⟩
        · exact ⟨_, mem_deedsOf (List.mem_append_right _ List.mem_cons_self)⟩

theorem Returned.finish {r : Except TaskError Unit} (returned : Returned source id i w log r) :
    Kept source none none (Hosted.leave (Hosting.input w (.finish i r)) id .ended) log := by
  have hkept : Kept source (some id) (some i) (Hosting.input w (.finish i r)) log := by
    refine returned.toKept.input rfl ?_ fun j result tells => ?_
    · rintro _ ⟨⟩
      rfl
    · cases tells with
      | failed e failure => exact returned.calm e rfl failure
      | exited _ e called =>
          cases e with
          | completed | cancelled => exact returned.told
          | skipped => exact absurd rfl called
  refine hkept.left_ended ?_
  rintro _ ⟨⟩
  refine abreast_of_ended ?_ returned.complete
  rw [supervisor_input, State.stageOf_finish returned.running]

namespace Working

theorem panicked (working : Working source id i who? w log) (info : String) :
    Kept source none none (Hosted.leave (Hosting.input w (.panic i info)) id .ended) log := by
  have hkept : Kept source (some id) (some i) (Hosting.input w (.panic i info)) log := by
    refine working.toKept.input rfl ?_ fun j result tells => ?_
    · rintro _ ⟨⟩
      rfl
    · cases tells
      exact fun who loader => working.opened who (working.loader.symm.trans loader)
  refine hkept.left_ended ?_
  rintro _ ⟨⟩
  refine abreast_of_ended ?_ working.complete
  rw [supervisor_input, State.stageOf_panic working.running]

theorem paused (working : Working source id i who? w log) {rest : Rest Signal Task} {body : Body}
    (program : rest.program? = some (.program (.supervised i (some body))))
    (load : body.load = loadOf who?) :
    Kept source none none (Hosted.leave w id rest) log := by
  refine working.toKept.left rest ?_ ?_
  · rintro _ ⟨⟩
    refine ⟨fun new => absurd (.inl working.running) new, fun who loader _ => ?_, working.complete⟩
    exact working.opened who (working.loader.symm.trans loader)
  · intro j b task
    rw [program] at task
    cases task
    refine ⟨rfl, working.running, ?_⟩
    rintro _ ⟨⟩
    rw [load_eq (State.lt_of_stageOf working.running), working.loader, load]

theorem run (working : Working source id i who? w log) {body : Body}
    (load : body.load = loadOf who?) :
    Kept source none none (Hosted.leave (Bodied.run w i body).1 id (Bodied.run w i body).2)
      (log ++ linesOf who? (bodyDeeds w i body)) := by
  have hscript := working.script body.name body.rest
  rw [← load] at hscript
  simp only [Bodied.run, Bodied.runBody, runBody, bodyDeeds, linesOf_append, ← List.append_assoc]
  generalize log ++ linesOf who? (tally _ _ w body.rest) = log at hscript ⊢
  generalize runScript _ w body.rest = result at hscript ⊢
  obtain ⟨v, course⟩ := result
  cases course with
  | completed =>
      obtain ⟨u, r, hconclude, hreturned⟩ := (hscript.note body.name .ended).conclude (.ok ())
      rw [← load] at hconclude hreturned
      simp only [hconclude]
      exact hreturned.finish
  | finished stop =>
      cases stop with
      | gaveUp e =>
          obtain ⟨u, r, hconclude, hreturned⟩ := hscript.conclude (.error e)
          rw [← load] at hconclude hreturned
          simp only [hconclude]
          exact hreturned.finish
      | panicked info =>
          rw [linesOf_nil, List.append_nil]
          exact hscript.panicked info
  | suspended rest signals deadline =>
      rw [linesOf_nil, List.append_nil]
      exact hscript.paused rfl load
  | gaveWay rest =>
      rw [linesOf_nil, List.append_nil]
      exact hscript.paused rfl load

end Working

end Lifecycle.Supervisor.Scenario
