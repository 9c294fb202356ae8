import Lifecycle.Proofs.Resource.Diary
import Lifecycle.Proofs.Resource.Protocol

/-!
# What a load starts from

A load begins with the data that its resource held when it was launched, not with what the resource
holds by then: what is written in between is overwritten.
-/

namespace Lifecycle.Supervisor.Scenario

open HasExecutor
open Resource

variable {source : String} {v w : World} {diary : Diary} {id : TaskId} {i c : Nat}
  {o : Outcome Value} {l : Load Value} {load : Option (Nat × Load Value)}

/-! ## Bodies -/

namespace Dated

theorem report (h : Dated w diary) (i : Nat) (e : TaskError) : Dated (w.reportFor i e) diary := by
  unfold World.reportFor
  split
  · exact h
  · exact h.still rfl rfl fun _ h => h

end Dated

def Hired (load : Option (Nat × Load Value)) (diary : Diary) : Prop :=
  ∀ c l, load = some (c, l) → ∃ i policy, .launched i c policy ∈ diary

theorem Hired.append (hired : Hired load diary) (more : Diary) : Hired load (diary ++ more) := by
  intro c l hl
  obtain ⟨i, policy, hmem⟩ := hired c l hl
  exact ⟨i, policy, List.mem_append_left _ hmem⟩

namespace Dated

theorem known_of_hired (h : Dated w diary) (hired : Hired (some (c, l)) diary) :
    c < w.cells.length := by
  obtain ⟨i, policy, hmem⟩ := hired c l rfl
  obtain ⟨before, later, rfl⟩ := List.append_of_mem hmem
  have htold : before ++ [.launched i c policy] <+: before ++ .launched i c policy :: later :=
    ⟨later, by simp⟩
  exact h.known htold

theorem forwardItem (h : Dated w diary) (hired : Hired (some (c, l)) diary) (i : Nat)
    (item : StreamItem) :
    Dated (Scenario.forwardItem i c w item).1 (diary ++ forwardedTo c item) := by
  cases item with
  | pause p => rwa [forwardedTo, List.append_nil]
  | outcome o =>
      have hreported : Dated (o.error?.elim w (w.reportFor i)) diary := by
        cases o.error? with
        | none => exact h
        | some e => exact h.report i e
      refine hreported.write (hreported.known_of_hired hired) ?_
      cases o.error? with
      | none => rfl
      | some e => exact congrArg (Cell.set · o) (cell_reportFor w i c e).symm

theorem forward (h : Dated w diary) (hired : Hired (some (c, l)) diary) (i : Nat)
    (items : List StreamItem) :
    Dated (Scenario.forward w i c items).1
      (diary ++ if w.supervisor.isCancelled i then [] else
        tally (Scenario.forwardItem i c) (fun _ => forwardedTo c) w items) := by
  unfold Scenario.forward
  split
  · rwa [List.append_nil]
  · have hscript := runScript_keeps (fun _ => forwardedTo c)
      (Q := fun v more => Dated v more ∧ Hired (some (c, l)) more)
      (fun v more item h => ⟨h.1.forwardItem h.2 i item, h.2.append _⟩) items diary
      ⟨h, hired⟩
    generalize runScript (Scenario.forwardItem i c) w items = result at hscript ⊢
    obtain ⟨v, course⟩ := result
    cases course <;> exact hscript.1

theorem cancel (h : Dated w diary) (key : Value) : Dated (w.cancel key).1 diary := by
  unfold World.cancel
  split
  · change Dated (Hosting.input w (.cancel key)) diary
    exact h.input _
  · exact h

theorem act (h : Dated w diary) (hired : Hired load diary) (i : Nat) (name : String)
    (item : Item) :
    Dated (Scenario.act i name load w item).1 (diary ++ itemStirs i load w item) := by
  have hnone {v : World} (h : Dated v diary) : Dated v (diary ++ []) := by
    rwa [List.append_nil]
  cases item with
  | pause p => exact hnone h
  | untilCancelled =>
      refine hnone ?_
      simp only [Scenario.act]
      split
      · exact h.note name _
      · exact h
  | sleepOrCancel ms | untilOrCancel deadline =>
      refine hnone ?_
      simp only [Scenario.act]
      split
      · exact h.note name _
      · split
        · exact h.note name _
        · exact h
  | log text => exact hnone (h.note name _)
  | token => exact hnone (h.note name _)
  | yield times => cases times <;> exact hnone h
  | launch key other rest resource policy =>
      exact (h.launches key other rest resource policy).note name _
  | cancel key =>
      exact hnone ((h.cancel key).note name _)
  | owned key => exact hnone (h.note name _)
  | giveUp e => exact hnone (h.note name _)
  | panic p => exact hnone h
  | set o =>
      cases load with
      | none => exact hnone h
      | some load => exact h.write (h.known_of_hired hired) rfl
  | get | data =>
      cases load with
      | none => exact hnone h
      | some load => exact hnone (h.note name _)
  | report e =>
      cases load with
      | none => exact hnone h
      | some load => exact hnone (h.report i e)
  | emitAll items =>
      cases load with
      | none => exact hnone h
      | some load =>
          have hforward := h.forward hired i items
          simp only [Scenario.act, itemStirs]
          generalize Scenario.forward w i load.1 items = result at hforward ⊢
          obtain ⟨v, reaction⟩ := result
          cases reaction with
          | proceed => exact hforward.note name _
          | suspend | giveWay | finish => exact hforward

theorem conclude (h : Dated w diary) (hired : Hired load diary) (i : Nat)
    (r : Except TaskError Unit) :
    Dated (Scenario.conclude w i load r).1 (diary ++ endStirs w load r) := by
  cases load with
  | none => rwa [endStirs, List.append_nil]
  | some load =>
      obtain ⟨c, l⟩ := load
      have hcalm (calm : l.conclude (w.cell c) r = (none, w.cell c, r)) :
          Dated (Scenario.conclude w i (some (c, l)) r).1
            (diary ++ endStirs w (some (c, l)) r) := by
        simp only [Scenario.conclude, endStirs, calm, List.append_nil]
        exact h
      cases r with
      | ok u => exact hcalm rfl
      | error e =>
          by_cases hcancel : e.isCancellation = true
          · exact hcalm (if_pos hcancel)
          · have hfailed : l.conclude (w.cell c) (.error e) = (some e, (w.cell c).set
                (.error e (if l.keepsData then (w.cell c).data else none)), .ok ()) :=
              if_neg hcancel
            simp only [Scenario.conclude, endStirs, hfailed]
            have hget (o : Outcome Value) : ((w.cell c).set o).get = o := List.getLastD_concat ..
            rw [hget]
            exact (h.report i e).write ((h.report i e).known_of_hired hired)
              (congrArg (Cell.set · _) (cell_reportFor w i c e).symm)

theorem runBody (h : Dated w diary) (i : Nat) (body : Body) (hired : Hired body.load diary) :
    Dated (Scenario.runBody w i body).1 (diary ++ bodyStirs w i body) := by
  have hscript := runScript_keeps (itemStirs i body.load)
    (Q := fun v more => Dated v more ∧ Hired body.load more)
    (fun v more item h => ⟨h.1.act h.2 i body.name item, h.2.append _⟩) body.rest diary
    ⟨h, hired⟩
  simp only [Scenario.runBody, bodyStirs, ← List.append_assoc]
  generalize diary ++ tally _ _ w body.rest = diary at hscript ⊢
  generalize runScript _ w body.rest = result at hscript ⊢
  obtain ⟨v, course⟩ := result
  obtain ⟨hdated, hhired⟩ := hscript
  have hnone : Dated v (diary ++ []) := by rwa [List.append_nil]
  cases course with
  | completed => exact (hdated.note body.name .ended).conclude hhired i (.ok ())
  | finished stop =>
      cases stop with
      | gaveUp e => exact hdated.conclude hhired i (.error e)
      | panicked info => exact hnone
  | suspended rest signals deadline => exact hnone
  | gaveWay rest => exact hnone

theorem run (h : Dated w diary) (i : Nat) (body : Body) (hired : Hired body.load diary) :
    Dated (Bodied.run w i body).1 (diary ++ bodyStirs w i body) := by
  have hbody := h.runBody i body hired
  simp only [Bodied.run, Bodied.runBody]
  generalize Scenario.runBody w i body = result at hbody ⊢
  obtain ⟨v, turn⟩ := result
  cases turn with
  | waiting | yielding => exact hbody
  | ended r => exact hbody.input (.finish i r)
  | panicked info => exact hbody.input (.panic i info)

/-! ## Turns -/

theorem hired (h : Dated w diary) (load : w.bodies[i]?.bind Body.load = some (c, l)) :
    Hired (some (c, l)) diary := by
  rintro _ _ ⟨⟩
  exact ⟨i, (h.loads i c l load).2⟩

theorem hired_of_eq (h : Dated w diary) (same : w.bodies[i]?.bind Body.load = load) :
    Hired load diary := by
  intro c l hl
  rw [hl] at same
  exact h.hired same c l rfl

theorem called (h : Dated w diary) (i : Nat) :
    Dated (callBody w i).1 (diary ++ (callBody w i).2.load.toList.map fun load =>
        .began i load.1 (.progress load.2.seed)) ∧
      w.bodies[i]?.bind Body.load = (callBody w i).2.load := by
  have hbody : w.bodies[i]?.bind Body.load = (callBody w i).2.load := by
    change _ = ((w.bodies[i]?).getD { name := "", rest := [] }).load
    cases w.bodies[i]? <;> rfl
  refine ⟨?_, hbody⟩
  cases hload : (callBody w i).2.load with
  | none =>
      have hworld : (callBody w i).1 = w.note (callBody w i).2.name .start := by
        simp only [callBody] at hload ⊢
        rw [hload]
      rw [hworld, Option.toList_none, List.map_nil, List.append_nil]
      exact h.note _ _
  | some load =>
      have hworld : (callBody w i).1 =
          (w.modifyCell load.1 load.2.start).note (callBody w i).2.name .start := by
        simp only [callBody] at hload ⊢
        rw [hload]
      rw [hworld]
      exact (h.begin (hbody.trans hload)).note _ _

theorem joined (h : Dated w diary) (pending : List Nat) (program : List Nat → Program Body) :
    Dated (Bodied.join w pending program).1 diary := by
  unfold Bodied.join
  cases (Hosting.state w).stillRunning pending with
  | nil =>
      cases program [] with
      | supervised | releaser => exact h
      | cancelAll | waitIdle => exact h.note _ _
  | cons => exact h

theorem cancelled (h : Dated w diary) (owners : List (Value × Nat)) :
    Dated (owners.foldl (fun w o => Hosting.input w (.cancel o.1)) w) diary := by
  induction owners generalizing w with
  | nil => exact h
  | cons o rest ih => exact ih (h.input _)

theorem watched (h : Dated w diary) (name : String) (c : Nat) (v : Watcher) :
    Dated (w.watch name c v).1 diary := by
  simp only [World.watch]
  repeat' split
  all_goals exact h.still rfl rfl fun _ h => h

theorem turned_idle (h : Dated w diary) (id : TaskId) {t : Task} (bodiless : t.isBodiless = true) :
    Dated (Hosted.turn w id t).1 diary := by
  cases t with
  | program p =>
      cases p with
      | supervised => cases bodiless
      | releaser i =>
          simp only [Hosted.turn, Bodied.turn]
          cases (Hosting.state w).awaits i with
          | some p => exact h
          | none => exact h.input (.release i)
      | cancelAll pending =>
          cases pending with
          | none => exact (h.cancelled _).joined _ _
          | some pending => exact h.joined _ _
      | waitIdle pending =>
          simp only [Hosted.turn, Bodied.turn]
          cases (Hosting.state w).stillRunning pending with
          | cons => exact h
          | nil => exact h.joined _ _
  | waiter name i =>
      simp only [Hosted.turn]
      split
      · exact h.note _ _
      · exact h
  | watcher name c v => exact h.watched name c v

theorem turned_waiting (h : Dated w diary) (id : TaskId) (i : Nat) :
    Dated (Hosted.turn w id (.program (.supervised i none))).1
      (diary ++ w.stirs (.program (.supervised i none))) := by
  have hstate : Hosting.state w = w.supervisor := rfl
  simp only [Hosted.turn, Bodied.turn, World.stirs, hstate]
  cases w.supervisor.awaits i with
  | some p => simpa using h
  | none =>
      cases w.supervisor.isCancelled i with
      | true => simpa using h.input (.begin i)
      | false =>
          have hinput := h.input (.begin i)
          obtain ⟨hcalled, hload⟩ := hinput.called i
          have hrun := hcalled.run i _ ((hinput.hired_of_eq hload).append _)
          rw [List.append_assoc] at hrun
          simp only [Option.isSome_none, Bool.or_self, Bool.false_eq_true, if_false, Bool.not_false,
            if_true]
          exact hrun

theorem left (h : Dated w diary) (id : TaskId) (rest : Rest Signal Task) :
    Dated (Hosted.leave w id rest) diary := by
  cases rest <;> exact h.still rfl rfl fun _ h => h

theorem tidied (h : Dated w diary) : Dated w.tidy diary := by
  have hclosed : Dated w.closeSupervisor diary := by
    unfold World.closeSupervisor
    split
    · exact h
    · exact h.input _
  refine List.foldlRecOn (motive := fun v => Dated v diary) _ _ hclosed fun v h c _ => ?_
  split
  · exact h
  · exact h.touch c fun _ => ⟨rfl, rfl⟩

end Dated

theorem stirs_of_bodiless {t : Task} (bodiless : t.isBodiless = true) : w.stirs t = [] := by
  cases t with
  | program p =>
      cases p with
      | supervised => cases bodiless
      | releaser | cancelAll | waitIdle => rfl
  | waiter | watcher => rfl

theorem Dated.turned {log : Record} (h : Dated w diary) (kept : Kept source none none w log)
    {t : Task} (task : w.executor.task? id = some t) :
    Dated (Hosted.turn (update w (·.call id)) id t).1
      (diary ++ (update w (·.call id)).stirs t) := by
  have hcalled : Dated (update w (·.call id)) diary := h.still rfl rfl fun _ h => h
  cases hbodiless : t.isBodiless with
  | true =>
      rw [stirs_of_bodiless hbodiless, List.append_nil]
      exact hcalled.turned_idle id hbodiless
  | false =>
      obtain ⟨i, b, rfl⟩ := Task.eq_supervised hbodiless
      cases b with
      | none => exact hcalled.turned_waiting id i
      | some body =>
          obtain ⟨_, hserves⟩ := kept.crew id i (some body) nofun task
          exact hcalled.run i body (h.hired_of_eq (hserves.load body rfl))

theorem Dated.discarded (h : Dated w diary) (id : TaskId) (t : Task) :
    Dated (Hosted.discard w id t) diary := by
  cases t with
  | program p =>
      cases p with
      | supervised i b => exact h.input (.abort i)
      | releaser | cancelAll | waitIdle => exact h
  | waiter | watcher => exact h

/-! ## Acts -/

theorem Dated.taken (h : Dated w diary) {step : Step} (admitted : w.admits (.step step) = true) :
    Dated (w.take step).1 (diary ++ w.stirsOf (.step step)) := by
  have hnone {v : World} (h : Dated v diary) : Dated v (diary ++ []) := by
    rwa [List.append_nil]
  have hplain {v : World} (cells : v.cells = w.cells) (bodies : v.bodies = w.bodies)
      (resources : ∀ r ∈ v.resources, r ∈ w.resources) : Dated v (diary ++ []) :=
    hnone (h.still cells bodies resources)
  have hsame : ∀ r ∈ w.resources, r ∈ w.resources := fun _ h => h
  cases step with
  | launch key name body resource policy => exact h.launches key name body resource policy
  | cancel key => exact hnone (h.cancel key)
  | owned | debug => exact hnone h
  | owner key name =>
      simp only [World.take]
      split
      · exact hnone h
      · cases name <;> exact hplain rfl rfl hsame
  | handle name =>
      simp only [World.take]
      split <;> exact hnone h
  | wait | cancelAll | waitIdle =>
      simp only [World.take]
      split <;> exact hplain rfl rfl hsame
  | abort name =>
      refine hnone ?_
      simp only [World.take, World.abort]
      repeat' split
      all_goals exact h.still rfl rfl hsame
  | cancelParent =>
      simp only [World.take]
      split
      · exact hnone (h.input _)
      · exact hnone h
  | clone | dropClone | dropAll => exact hplain rfl rfl hsame
  | newResource name o => exact hnone (h.addCell name rfl fun _ h => (List.mem_filter.mp h).1)
  | set name o => exact (h.cellNamed name).write (cellNamed_lt h.named name) rfl
  | dropResource name => exact hplain rfl rfl fun _ h => (List.mem_filter.mp h).1
  | debugResource name => exact hnone (h.cellNamed name)
  | subscribe name watcher => exact hnone ((h.cellNamed name).still rfl rfl fun _ h => h)
  | reportError o =>
      simp only [World.take]
      split <;> exact hplain rfl rfl hsame
  | advance | settle => cases admitted
  | release latch => exact hplain rfl rfl hsame

theorem Dated.perform {log : Record} (h : Dated w diary) (kept : Kept source none none w log)
    {a : Act} (admitted : w.admits a = true) : Dated (w.perform a) (diary ++ w.stirsOf a) := by
  cases a with
  | step s => exact (h.taken admitted).tidied
  | clock target =>
      rw [show w.stirsOf (.clock target) = [] from rfl, List.append_nil]
      exact h.still rfl rfl fun _ h => h
  | turn id =>
      have hqueued : id ∈ w.executor.ready := List.contains_iff_mem.mp admitted
      obtain ⟨t, htask⟩ := Option.isSome_iff_exists.mp (kept.ordered.queued id hqueued)
      rw [World.perform, World.stirsOf, htask]
      by_cases hdoomed : id ∈ w.executor.doomed
      · rw [Hosted.runTurn_of_doomed hqueued htask hdoomed,
          if_pos (List.contains_iff_mem.mpr hdoomed), List.append_nil]
        have hcalled : Dated (update w (·.call id)) diary := h.still rfl rfl fun _ h => h
        have hretired : Dated (update (Hosted.discard (update w (·.call id)) id t) (·.retire id))
            diary := (hcalled.discarded id t).still rfl rfl fun _ h => h
        exact hretired.tidied
      · rw [Hosted.runTurn_of_task hqueued htask hdoomed,
          if_neg (by rwa [List.contains_iff_mem])]
        exact ((h.turned kept htask).left id _).tidied

theorem Dated.run_acts {log : Record} {acts : List Act} (h : Dated w diary)
    (kept : Kept source none none w log) (orderly : w.orderly acts = true) :
    Dated (w.after acts) (diary ++ w.diary acts) := by
  induction acts generalizing w diary log with
  | nil =>
      rw [World.diary, List.append_nil]
      exact h
  | cons a rest ih =>
      rw [World.orderly_cons] at orderly
      rw [World.diary, ← List.append_assoc]
      exact ih (h.perform kept orderly.1) (kept.perform orderly.1) orderly.2

/-! ## What a load starts from -/

/-- What the diary of a run that ends in `w` tells of the beginnings of loads.  A load begins with
the data that its resource held when it was launched, so that its first write leaves the data
unchanged only if the resource still holds them. -/
structure Seeded (w : World) (diary : Diary) : Prop where
  writes : ∀ c, (w.cell c).writes = writesIn c diary
  once : ∀ past i c policy, past ++ [.launched i c policy] <+: diary →
    ∀ k given, .launched i k given ∉ past
  launched : ∀ past i c o, past ++ [.began i c o] <+: diary →
    ∃ policy before, before ++ [.launched i c policy] <+: past
  seed : ∀ before past i k c o, before ++ [.launched i k none] <+: diary →
    past ++ [.began i c o] <+: diary → k = c ∧ o = .progress (w.held c before)
  keeps : ∀ before past i k c o, before ++ [.launched i k none] <+: diary →
    past ++ [.began i c o] <+: diary →
      (w.held c (past ++ [.began i c o]) = w.held c past ↔ w.held c past = w.held c before)

theorem held_began (w : World) (past : Diary) (i c : Nat) (o : Outcome Value) :
    w.held c (past ++ [.began i c o]) = o.data := by
  have hlast : writesIn c [.began i c o] = [o] := by simp [writesIn, Stir.writeTo?]
  rw [World.held, writesIn_append, hlast, List.getLastD_concat]

theorem Dated.seed {k : Nat} {policy : Policy} {before past : Diary} (h : Dated w diary)
    (launched : before ++ [.launched i k policy] <+: diary)
    (began : past ++ [.began i c o] <+: diary) :
    k = c ∧ o = .progress (w.loadAfter c before policy).seed := by
  obtain ⟨given, earlier, hearlier, rfl⟩ := h.began past i c o began
  have htold := h.launched earlier i c given
    (hearlier.trans ((List.prefix_append _ _).trans began))
  have hload := htold.symm.trans (h.launched before i k policy launched)
  obtain ⟨rfl, hload⟩ := Prod.mk.inj (Option.some.inj hload)
  exact ⟨rfl, by rw [hload]⟩

theorem first_write_has_data_of_launch (setup : Setup) (acts : List Act)
    (orderly : setup.world.orderly acts = true) :
    Seeded (setup.world.after acts) (setup.world.diary acts) := by
  have h := (dated_fresh setup).run_acts (kept_fresh setup) orderly
  rw [List.nil_append] at h
  refine ⟨h.writes, h.once, fun past i c o began => ?_,
    fun before past i k c o launched began => h.seed launched began, ?_⟩
  · obtain ⟨policy, before, hbefore, _⟩ := h.began past i c o began
    exact ⟨policy, before, hbefore⟩
  · intro before past i k c o launched began
    obtain ⟨_, rfl⟩ := h.seed launched began
    rw [held_began]
    exact eq_comm

/-- The first load stores a newer value when it is cancelled for the second, which was launched
before that. -/
def storingLate : List Act :=
  [.step (.newResource "page" (.success (.number 1))),
    .step (.launch (.number 7) "first" [.untilCancelled, .set (.success (.number 2))] (some "page")
      none),
    .turn 0,
    .step (.launch (.number 7) "second" [.get] (some "page") none),
    .turn 0, .turn 1]

def storingLateDiary : Diary :=
  [.launched 0 0 none, .began 0 0 (.progress (some (.number 1))), .launched 1 0 none,
    .wrote 0 (.success (.number 2)), .began 1 0 (.progress (some (.number 1)))]

theorem seeds_when_storing_late :
    managed.world.orderly storingLate = true ∧
      managed.world.diary storingLate = storingLateDiary ∧
      ((managed.world.after storingLate).cell 0).writes =
        [.progress (some (.number 1)), .success (.number 2), .progress (some (.number 1))] ∧
      Seeded (managed.world.after storingLate) (managed.world.diary storingLate) := by
  have horderly : managed.world.orderly storingLate = true := by decide +kernel
  exact ⟨horderly, by decide +kernel, by decide +kernel,
    first_write_has_data_of_launch managed storingLate horderly⟩

/-- The value that was stored last is gone when the second load begins. -/
theorem stored_data_is_lost :
    ¬∀ (setup : Setup) (acts : List Act), setup.world.orderly acts = true →
      ∀ before past i c o, before ++ [.launched i c none] <+: setup.world.diary acts →
        past ++ [.began i c o] <+: setup.world.diary acts →
          (setup.world.after acts).held c (past ++ [.began i c o]) =
            (setup.world.after acts).held c past := by
  intro h
  have hdiary : managed.world.diary storingLate = storingLateDiary := by decide +kernel
  have hkept := h managed storingLate (by decide +kernel) (storingLateDiary.take 2)
    (storingLateDiary.take 4) 1 0 (.progress (some (.number 1)))
  rw [hdiary] at hkept
  have hlost := hkept (by decide) (by decide)
  revert hlost
  decide +kernel

end Lifecycle.Supervisor.Scenario
