import Mathlib.Tactic.TFAE
import Lifecycle.Gate.Scenario
import Lifecycle.Proofs.Gate.Currency
import Lifecycle.Proofs.Relay.Upkeep

/-!
# Every user of a session is told the same

Whoever asks a session whether it is current, looks at its token, works on the cache, emits a value
or completes it gets one and the same answer, in every state that a gate or a relay can reach.
-/

namespace Lifecycle.Relay

open Gate.State (Views Paced)

theorem kept_after {s : State} {past : List Moment} {acts : List Act} (h : Kept s past)
    (orderly : s.orderly acts = true) : Kept (s.after acts) (past ++ s.history acts) := by
  induction acts generalizing s past with
  | nil =>
      rw [State.history, List.append_nil]
      exact h
  | cons a rest ih =>
      rw [State.orderly_cons] at orderly
      rw [State.history, List.append_cons]
      exact ih (h.act orderly.1) orderly.2

theorem emit_eq_ok_iff (s : State) (i : Nat) (v : Value) :
    (s.emit i v).2 = .ok () ↔ s.gate.isCurrent i = true := by
  cases hcurrent : s.gate.isCurrent i with
  | true => simp [State.emit_current hcurrent]
  | false => simp [State.emit_stale hcurrent]

/-- A session that has begun at a gate, whatever its consumers and its cache are. -/
structure Decided {γ κ : Type} [Inhabited κ] (s : Gate.State γ κ) (i : Nat) : Prop
    extends Views s i where
  forever : s.isCurrent i = false → ∀ later, s.orderly later = true →
    (s.run later).1.isCurrent i = false

theorem session_views_agree (γ κ : Type) [Inhabited κ] (settings : RelaySettings) :
    (∀ past : List (Gate.Occasion γ κ),
      (Gate.State.fresh settings.name settings.gracePeriod).orderly past = true →
      let s := ((Gate.State.fresh settings.name settings.gracePeriod).run past).1
      ∀ i < s.sessions.length, Decided s i) ∧
    (∀ past (w : Gate.Scenario.World),
      (Gate.State.fresh settings.name settings.gracePeriod).orderly past = true →
      w.gate = ((Gate.State.fresh settings.name settings.gracePeriod).run past).1 →
      ∀ i < w.gate.sessions.length, ∀ value,
        [w.gate.isCurrent i = true, w.gate.isCancelled i = false,
          (w.push i value).2.isSome = true, (w.complete i).2 = true].TFAE) ∧
    ∀ acts, (State.fresh settings).orderly acts = true →
      let r := (State.fresh settings).after acts
      ∀ i < r.gate.sessions.length, Views r.gate i ∧ ∀ v,
        [r.gate.isCurrent i = true, r.gate.isCancelled i = false,
          (r.emit i v).2 = .ok ()].TFAE ∧
        (r.gate.isCurrent i = false → (r.emit i v).1 = r) := by
  refine ⟨?_, ?_, ?_⟩
  · intro past orderly s i hi
    obtain ⟨n, h, manned, _⟩ := Gate.State.paced_run settings.name settings.gracePeriod orderly
    exact ⟨h.views hi, fun gone later more => h.stays_over manned more hi gone⟩
  · intro past w orderly reached i hi value
    obtain ⟨n, h, _⟩ := Gate.State.paced_run settings.name settings.gracePeriod orderly
    rw [← reached] at h
    have hpush : (w.push i value).2.isSome = true ↔ w.gate.isCurrent i = true := by
      simp only [Gate.Scenario.World.push]
      cases w.gate.isCurrent i <;> simp
    have hcomplete : (w.complete i).2 = true ↔ w.gate.isCurrent i = true := Iff.rfl
    tfae_have 1 ↔ 2 := h.isCurrent_iff_uncancelled hi
    tfae_have 3 ↔ 1 := hpush
    tfae_have 4 ↔ 1 := hcomplete
    tfae_finish
  · intro acts orderly r i hi
    obtain ⟨n, h⟩ := (kept_after (kept_fresh settings) orderly).paced
    refine ⟨h.views hi, fun v => ⟨?_, fun gone => ?_⟩⟩
    · tfae_have 1 ↔ 2 := h.isCurrent_iff_uncancelled hi
      tfae_have 3 ↔ 1 := emit_eq_ok_iff r i v
      tfae_finish
    · rw [State.emit_stale gone]

/-- The first session completes while its starting hook runs, the second one fails, and then nothing
holds the relay any more. -/
def forsakenRelay : List Act :=
  [.attach, .gate (.activate 0), .emit 0 (.number 1), .gate (.complete 0), .attach,
    .gate (.activated 0 .returned), .gate (.deactivate 0), .gate (.deactivated 0 none),
    .gate (.activate 1), .emit 0 (.number 2), .gate (.fail 1 (.failed "lost")),
    .gate (.activated 1 .returned), .gate (.deactivate 1), .gate (.deactivated 1 none),
    .gate .drop]

theorem sessions_of_forsaken_relay :
    (State.fresh {}).orderly forsakenRelay = true ∧
      1 < ((State.fresh {}).after forsakenRelay).gate.sessions.length ∧
      ((State.fresh {}).after forsakenRelay).gate.dropped = true ∧
      ((State.fresh {}).after forsakenRelay).gate.isCurrent 1 = false ∧
      (((State.fresh {}).after forsakenRelay).emit 1 (.number 3)).1 =
        (State.fresh {}).after forsakenRelay ∧
      Views ((State.fresh {}).after forsakenRelay).gate 1 := by
  have horderly : (State.fresh {}).orderly forsakenRelay = true := by decide
  have hbegun : 1 < ((State.fresh {}).after forsakenRelay).gate.sessions.length := by decide
  have hover : ((State.fresh {}).after forsakenRelay).gate.isCurrent 1 = false := by decide
  obtain ⟨hviews, hemit⟩ := (session_views_agree Unit Unit {}).2.2 forsakenRelay horderly 1 hbegun
  exact ⟨horderly, hbegun, by decide, hover, (hemit (.number 3)).2 hover, hviews⟩

end Lifecycle.Relay
