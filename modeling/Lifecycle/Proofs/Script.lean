import Lifecycle.Script

/-!
# Turns of a script

A turn works off items until one of them makes the task wait.  What these items amount to adds up,
and what each of them keeps is kept by the turn.
-/

namespace Lifecycle

variable {W σ ι ρ α : Type} (act : W → ι → W × Reaction σ ι ρ) (deeds : W → ι → List α)

/-- What the items amount to that are worked off in one turn. -/
def tally : W → List ι → List α
  | _, [] => []
  | w, item :: rest =>
      match act w item with
      | (v, .proceed) => deeds w item ++ tally v rest
      | _ => deeds w item

variable {act}

theorem runScript_keeps_of_mem {Q : W → List α → Prop} {items : List ι}
    (each : ∀ w log, ∀ item ∈ items, Q w log → Q (act w item).1 (log ++ deeds w item))
    {w : W} (log : List α) (h : Q w log) :
    Q (runScript act w items).1 (log ++ tally act deeds w items) := by
  induction items generalizing w log with
  | nil =>
      rw [tally, List.append_nil]
      exact h
  | cons item rest ih =>
      have hact := each w log item List.mem_cons_self h
      rw [runScript, tally]
      generalize act w item = result at hact ⊢
      obtain ⟨v, reaction⟩ := result
      cases reaction with
      | proceed =>
          rw [← List.append_assoc]
          exact ih (fun u more item hitem => each u more item (List.mem_cons_of_mem _ hitem)) _ hact
      | suspend => exact hact
      | giveWay => exact hact
      | finish => exact hact

theorem runScript_keeps {Q : W → List α → Prop}
    (each : ∀ w log item, Q w log → Q (act w item).1 (log ++ deeds w item)) (items : List ι)
    {w : W} (log : List α) (h : Q w log) :
    Q (runScript act w items).1 (log ++ tally act deeds w items) :=
  runScript_keeps_of_mem deeds (fun w log item _ => each w log item) log h

theorem runScript_append {items : List ι} {w v : W}
    (through : runScript act w items = (v, .completed)) (more : List ι) :
    runScript act w (items ++ more) = runScript act v more := by
  induction items generalizing w with
  | nil =>
      cases through
      rfl
  | cons item rest ih =>
      rw [List.cons_append]
      rw [runScript] at through ⊢
      generalize act w item = result at through ⊢
      obtain ⟨u, reaction⟩ := result
      cases reaction with
      | proceed => exact ih through
      | suspend | giveWay | finish => cases through

theorem runScript_finished {items : List ι} {w v : W} {result : ρ}
    (finished : runScript act w items = (v, .finished result)) (more : List ι) :
    runScript act w (items ++ more) = (v, .finished result) ∧
      tally act deeds w (items ++ more) = tally act deeds w items := by
  induction items generalizing w with
  | nil => cases finished
  | cons item rest ih =>
      rw [List.cons_append]
      rw [runScript] at finished
      rw [runScript, tally, tally]
      generalize act w item = result at finished ⊢
      obtain ⟨u, reaction⟩ := result
      cases reaction with
      | proceed =>
          obtain ⟨hrun, htally⟩ := ih finished
          exact ⟨hrun, congrArg (deeds w item ++ ·) htally⟩
      | suspend | giveWay => cases finished
      | finish => exact ⟨finished, rfl⟩

theorem runScript_holds {P : W → Prop} (each : ∀ w item, P w → P (act w item).1)
    (items : List ι) {w : W} (h : P w) : P (runScript act w items).1 :=
  runScript_keeps (fun _ _ => ([] : List Unit)) (Q := fun v _ => P v)
    (fun w _ item => each w item) items [] h

end Lifecycle
