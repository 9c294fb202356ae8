import Lifecycle.Proofs.Hosting.Crew

/-!
# The effects of a gate on its crew

A step of the gate leaves effects due, and each effect that is performed settles its part: a task is
added, those who wait for a signal are put into the queue, or the debouncer gets another job.
-/

namespace Lifecycle.Gate.Hosting

open HasExecutor
open State (Paced Manned Move)

variable {W σ τ γ κ η : Type} [Inhabited κ] [Hosting W σ τ γ κ η]
  {skip : Option TaskId} {w v : W} {hand next : Option Mark}
  {e : Effect γ κ} {due rest : List (Effect γ κ)}

/-- One task changes its place or joins or leaves the crew, and nothing else changes for the gate.
What was in its care, in hand or due is accounted for. -/
theorem Linked.extend (h : Linked w due hand) (frame : Frame skip w v)
    (staffed : ∀ m, m ∈ starts due ∨ hand = some m ∨
        (∃ id t, skip = some id ∧ Crew w id t ∧ t.mark? = some m) →
      m ∈ starts rest ∨ next = some m ∨
        (∃ id t, skip = some id ∧ Crew v id t ∧ t.mark? = some m) ∨ ¬(state w).Outstanding m)
    (signals : ∀ a, .signal a ∈ due → .signal a ∈ rest)
    (tended : ∀ id t, skip = some id → Crew v id t → Tended v rest id t)
    (epochs : ∀ id job epoch, skip = some id → Crew v id (.grace job (some epoch)) →
      epoch ≤ (state w).drainEpoch)
    (begins : ∀ d ∈ drains rest, d ∈ drains due) : Linked v rest next where
  paced := by rw [frame.state]; exact h.paced
  manned := by rw [frame.state]; exact h.manned
  numbered := frame.numbered h.numbered
  orderly := by rw [frame.timer]; exact h.orderly
  staffed m outstanding other := by
    rw [frame.state] at outstanding
    -- `staffed` covers `skip`, the hand and what is due; the rest of the crew is as before.
    have hfound (hm : m ∈ starts due ∨ hand = some m ∨
        (∃ id t, skip = some id ∧ Crew w id t ∧ t.mark? = some m)) :
        (∃ id t, Crew v id t ∧ t.mark? = some m) ∨ m ∈ starts rest := by
      rcases staffed m hm with hstart | hnext | ⟨id, t, _, hcrew, hmark⟩ | hnot
      · exact .inr hstart
      · exact absurd hnext other
      · exact .inl ⟨id, t, hcrew, hmark⟩
      · exact absurd outstanding hnot
    by_cases hhand : hand = some m
    · exact hfound (.inr (.inl hhand))
    · rcases h.staffed m outstanding hhand with ⟨id, t, hcrew, hmark⟩ | hstart
      · by_cases hskip : skip = some id
        · exact hfound (.inr (.inr ⟨id, t, hskip, hcrew, hmark⟩))
        · exact .inl ⟨id, t, (frame.crew_iff hskip).mpr hcrew, hmark⟩
      · exact hfound (.inl hstart)
  tended id t crew := by
    by_cases hskip : skip = some id
    · exact tended id t hskip crew
    · have hcrew := (frame.crew_iff hskip).mp crew
      exact frame.tended hskip hcrew (h.tended id t hcrew) signals
  epochs id job epoch crew := by
    rw [frame.state]
    by_cases hskip : skip = some id
    · exact epochs id job epoch hskip crew
    · exact h.epochs id job epoch ((frame.crew_iff hskip).mp crew)
  begins grace epoch begin := by
    rw [frame.state]
    exact h.begins grace epoch (begins _ begin)

theorem Linked.aside (h : Linked w due hand) (frame : Frame none w v) : Linked v due hand := by
  refine h.extend frame ?_ (fun _ => id) nofun nofun (fun _ => id)
  rintro m (hstart | hhand | ⟨_, _, hskip, _⟩)
  · exact .inl hstart
  · exact .inr (.inl hhand)
  · cases hskip

def Effect.Quiet (e : Effect γ κ) : Prop :=
  e.start? = none ∧ e.drain? = none ∧ ∀ a, e ≠ .signal a

theorem Linked.quiet (h : Linked w (e :: rest) hand) (frame : Frame none w v)
    (quiet : Effect.Quiet e) : Linked v rest hand := by
  obtain ⟨hstart, hdrain, hsignal⟩ := quiet
  have hstarts : starts (e :: rest) = starts rest := by rw [starts_cons, hstart]; rfl
  have hdrains : drains (e :: rest) = drains rest := by rw [drains_cons, hdrain]; rfl
  refine h.extend frame ?_ ?_ nofun nofun ?_
  · rintro m (hm | hhand | ⟨_, _, hskip, _⟩)
    · rw [hstarts] at hm
      exact .inl hm
    · exact .inr (.inl hhand)
    · cases hskip
  · intro a ha
    exact (List.mem_cons.mp ha).resolve_left (hsignal a).symm
  · rw [hdrains]
    exact fun _ => id

/-! ## Signals and new tasks -/

variable [LawfulHosting W]

theorem Linked.told [DecidableEq σ] {a : Signal} (h : Linked w (.signal a :: rest) hand) :
    Linked (signal w (Hosting.toSignal W (.gate a))) rest hand := by
  have frame := frame_signal w (Hosting.toSignal W (.gate a))
  have hlinked := h.aside frame
  refine ⟨hlinked.paced, hlinked.manned, hlinked.numbered, hlinked.orderly, hlinked.staffed,
    fun id t crew => ?_, hlinked.epochs, hlinked.begins⟩
  have hcrew := (frame.crew_iff nofun).mp crew
  have hpresent : (job? w id).isSome = true := by
    rw [hcrew.1]
    rfl
  refine (h.tended id t hcrew).imp (fun m ha => ?_) fun _ => frame.ticks nofun hcrew
  rcases ha with hready | ⟨b, hwaits, hcoming⟩
  · exact .inl (frame.ready id nofun hpresent hready)
  · by_cases hb : b = a
    · left
      rw [HasExecutor.signal, executor_update, ← hb]
      exact Executor.mem_ready_signal (task?_isSome hpresent) hcrew.2 hwaits
    · rcases frame.waits id _ nofun hpresent hcrew.2 hwaits with hkept | hready
      · refine .inr ⟨b, hkept, ?_⟩
        rw [frame.state]
        refine hcoming.imp_right fun hdue => (List.mem_cons.mp hdue).resolve_left fun heq => ?_
        exact hb (Effect.signal.inj heq)
      · exact .inl hready

theorem unique_spawn (numbered : (executor w).Numbered) {t u : Task η} {id : TaskId}
    (new : some (executor w).nextTask = some id)
    (crew : Crew (spawn w (Hosting.toTask W t)) id u) : u = t := by
  cases new
  exact Option.some.inj (crew.1.symm.trans (crew_spawn numbered t).1)

theorem Linked.started {m : Mark} {t : Task η} (h : Linked w (e :: rest) hand)
    (fresh : t.mark? = some m) (start : e.start? = some m) (quiet : e.drain? = none)
    (silent : ∀ a, e ≠ .signal a) : Linked (spawn w (Hosting.toTask W t)) rest hand := by
  have hdrains : drains (e :: rest) = drains rest := by rw [drains_cons, quiet]; rfl
  refine h.extend (frame_spawn w _) ?_ ?_ ?_ ?_ ?_
  · rintro m' (hm | hhand | ⟨id, u, hid, hu, _⟩)
    · rw [starts_cons, start] at hm
      rcases List.mem_append.mp hm with hm | hm
      · have heq : m' = m := by simpa using hm
        exact .inr (.inr (.inl ⟨_, t, rfl, crew_spawn h.numbered t, by rw [fresh, heq]⟩))
      · exact .inl hm
    · exact .inr (.inl hhand)
    · exact absurd hu (absent_spawn h.numbered id u hid)
  · intro a ha
    exact (List.mem_cons.mp ha).resolve_left (silent a).symm
  · intro id u hid _
    cases hid
    exact tended_of_ready (ready_spawn w t)
  · intro id job epoch hid hu
    rw [← unique_spawn h.numbered hid hu] at fresh
    cases fresh
  · rw [hdrains]
    exact fun _ => id

/-! ## The debouncer -/

theorem Linked.retimed (h : Linked w due hand) {d : Debouncer} (orderly : d.Orderly) :
    Linked (withTimer w d) due hand := by
  have hexecutor := LawfulHosting.executor_withTimer w d
  have hstate := LawfulHosting.state_withTimer w d
  refine ⟨?_, ?_, ?_, ?_, ?_, ?_, ?_, ?_⟩
  · rw [hstate]
    exact h.paced
  · rw [hstate]
    exact h.manned
  · rw [hexecutor]
    exact h.numbered
  · rw [LawfulHosting.timer_withTimer]
    exact orderly
  · rw [hstate]
    simp only [crew_congr hexecutor]
    exact h.staffed
  · intro id t crew
    refine (h.tended id t ((crew_congr hexecutor).mp crew)).imp (fun m ha => ?_) fun job ht => ?_
    · exact ha.congr hexecutor fun a ha => by rwa [hstate]
    · exact ht.congr hexecutor
  · simp only [crew_congr hexecutor, hstate]
    exact h.epochs
  · rw [hstate]
    exact h.begins

section Schedule

variable [DecidableEq σ]

theorem frame_discardJob (w : W) :
    Frame none (withTimer w (timer w).discard) (discardJob w) := by
  cases hpending : (timer w).pending with
  | none =>
      have hdiscard : discardJob w = withTimer w (timer w).discard := by
        simp [discardJob, hpending]
      rw [hdiscard]
      exact .refl _
  | some job =>
      have hdiscard : discardJob w = signal (withTimer w (timer w).discard)
          (Hosting.toSignal W (.discarded job)) := by
        simp [discardJob, hpending]
      rw [hdiscard]
      exact frame_signal _ _

theorem Linked.discarded (h : Linked w due hand) : Linked (discardJob w) due hand :=
  (h.retimed h.orderly.discard).aside (frame_discardJob w)

theorem state_cleared (w : W) (delay : Span) : state (cleared w delay) = state w := by
  rw [cleared, LawfulHosting.state_withTimer, (frame_discardJob w).state,
    LawfulHosting.state_withTimer]

theorem now_cleared (w : W) (delay : Span) : now (cleared w delay) = now w := by
  rw [cleared, now, LawfulHosting.executor_withTimer]
  refine (frame_discardJob w).now.trans ?_
  rw [now, now, LawfulHosting.executor_withTimer]

theorem crew_cleared (w : W) (delay : Span) {id : TaskId} {t : Task η} :
    Crew (cleared w delay) id t ↔ Crew w id t := by
  rw [cleared, crew_congr (LawfulHosting.executor_withTimer _ _),
    (frame_discardJob w).crew_iff nofun, crew_congr (LawfulHosting.executor_withTimer _ _)]

theorem timer_cleared (w : W) (delay : Span) :
    timer (cleared w delay) = ((timer w).schedule (now w) delay).1 :=
  LawfulHosting.timer_withTimer _ _

theorem Linked.cleared (h : Linked w due hand) (delay : Span) :
    Linked (Hosting.cleared w delay) due hand :=
  h.discarded.retimed (h.orderly.schedule (now w) delay)

theorem Linked.scheduled (h : Linked w (e :: rest) hand) {delay : Span} {epoch : Option Nat}
    (drain : e.drain? = some (epoch.map fun k => (delay, k))) (start : e.start? = none)
    (silent : ∀ a, e ≠ .signal a) : Linked (scheduleJob w delay epoch) rest hand := by
  have hdrains : drains (e :: rest) = epoch.map (fun k => (delay, k)) :: drains rest := by
    rw [drains_cons, drain]
    rfl
  have hstarts : starts (e :: rest) = starts rest := by rw [starts_cons, start]; rfl
  have hcleared := h.cleared delay
  rw [scheduleJob_eq]
  refine hcleared.extend (frame_spawn _ _) ?_ ?_ ?_ ?_ ?_
  · rintro m (hm | hhand | ⟨id, u, hid, hu, _⟩)
    · rw [hstarts] at hm
      exact .inl hm
    · exact .inr (.inl hhand)
    · exact absurd hu (absent_spawn hcleared.numbered id u hid)
  · intro a ha
    exact (List.mem_cons.mp ha).resolve_left (silent a).symm
  · intro id t hid _
    cases hid
    exact tended_of_ready (ready_spawn _ _)
  · intro id job k hid ht
    cases unique_spawn hcleared.numbered hid ht
    apply hcleared.begins delay k
    rw [hdrains]
    exact List.mem_cons_self
  · intro d hd
    rw [hdrains]
    exact List.mem_cons_of_mem _ hd

end Schedule

/-! ## What effects leave alone -/

namespace Settles

theorem spawn (w : W) (program : τ) : Settles w (HasExecutor.spawn w program) where
  state := state_update w _
  now := (frame_spawn w program).now
  numbered := (frame_spawn w program).numbered
  holds numbered id t := by
    by_cases hid : some (executor w).nextTask = some id
    · cases hid
      refine ⟨fun h => absurd h.2 ?_, fun h => absurd h.2 numbered.idle⟩
      rw [HasExecutor.spawn, executor_update]
      exact numbered.idle
    · exact (frame_spawn w program).holds_iff hid

theorem withTimer (w : W) (d : Debouncer) : Settles w (Hosting.withTimer w d) where
  state := LawfulHosting.state_withTimer w d
  now := by rw [HasExecutor.now, HasExecutor.now, LawfulHosting.executor_withTimer]
  numbered h := by rwa [LawfulHosting.executor_withTimer]
  holds _ _ _ := holds_congr (LawfulHosting.executor_withTimer w d)

variable [DecidableEq σ]

theorem discardJob (w : W) : Settles w (Hosting.discardJob w) :=
  (withTimer w _).trans (of_frame (frame_discardJob w))

theorem scheduleJob (w : W) (delay : Span) (epoch : Option Nat) :
    Settles w (Hosting.scheduleJob w delay epoch) :=
  ((discardJob w).trans (withTimer _ _)).trans (spawn _ _)

theorem perform (w : W) (e : Effect γ κ) : Settles w (Hosting.perform w e) := by
  cases e with
  | replay cache c => exact of_frame (LawfulHosting.consumer w _)
  | offer c e => exact of_frame (LawfulHosting.consumer w _)
  | close c => exact of_frame (LawfulHosting.consumer w _)
  | part c => exact of_frame (LawfulHosting.consumer w _)
  | publish event => exact of_frame (LawfulHosting.publish w event)
  | report e => exact of_frame (LawfulHosting.report w _)
  | signal a => exact of_frame (frame_signal w _)
  | startActivation i => exact spawn w _
  | startTeardown j => exact spawn w _
  | callActivate i => exact of_frame (.refl w)
  | callDeactivate j => exact of_frame (.refl w)
  | beginDrain grace epoch => exact scheduleJob w grace (some epoch)
  | endDrain => exact scheduleJob w .zero none

theorem performed (effects : List (Effect γ κ)) (w : W) :
    Settles w (effects.foldl Hosting.perform w) := by
  induction effects generalizing w with
  | nil => exact of_frame (.refl w)
  | cons e rest ih => exact (perform w e).trans (ih _)

end Settles

theorem state_input [DecidableEq σ] (w : W) (input : Input γ κ) :
    state (Hosting.input w input) = state (Hosting.step w input).1 :=
  (Settles.performed _ _).state

theorem now_input [DecidableEq σ] (w : W) (input : Input γ κ) :
    now (Hosting.input w input) = now w := by
  have hnow : now (Hosting.step w input).1 = now w := by
    rw [now, now, LawfulHosting.executor_step]
  exact (Settles.performed _ _).now.trans hnow

theorem holds_input [DecidableEq σ] {id : TaskId} {t : Task η}
    (numbered : (executor w).Numbered) (input : Input γ κ) :
    Holds (Hosting.input w input) id t ↔ Holds w id t := by
  have hexecutor := LawfulHosting.executor_step w input
  have hnumbered : (executor (Hosting.step w input).1).Numbered := by rwa [hexecutor]
  exact ((Settles.performed _ _).holds hnumbered id t).trans (holds_congr hexecutor)

/-! ## Whole steps -/

theorem Linked.perform [DecidableEq σ] (h : Linked w (e :: rest) hand) :
    Linked (perform w e) rest hand := by
  cases e with
  | replay cache c => exact h.quiet (LawfulHosting.consumer w _) ⟨rfl, rfl, nofun⟩
  | offer c e => exact h.quiet (LawfulHosting.consumer w _) ⟨rfl, rfl, nofun⟩
  | close c => exact h.quiet (LawfulHosting.consumer w _) ⟨rfl, rfl, nofun⟩
  | part c => exact h.quiet (LawfulHosting.consumer w _) ⟨rfl, rfl, nofun⟩
  | publish event => exact h.quiet (LawfulHosting.publish w event) ⟨rfl, rfl, nofun⟩
  | report e => exact h.quiet (LawfulHosting.report w _) ⟨rfl, rfl, nofun⟩
  | signal a => exact h.told
  | startActivation i => exact h.started (t := .activation i none) rfl rfl rfl nofun
  | startTeardown j => exact h.started (t := .teardown j none) rfl rfl rfl nofun
  | callActivate i => exact h.quiet (.refl w) ⟨rfl, rfl, nofun⟩
  | callDeactivate j => exact h.quiet (.refl w) ⟨rfl, rfl, nofun⟩
  | beginDrain grace epoch => exact h.scheduled rfl rfl nofun
  | endDrain => exact h.scheduled rfl rfl nofun

theorem step_move (w : W) (input : Input γ κ) :
    ∃ accepts, Move accepts (state w) input (state (Hosting.step w input).1)
      (Hosting.step w input).2 := by
  obtain ⟨accepts, hstate, heffects⟩ := LawfulHosting.step w input
  rw [hstate, heffects]
  exact ⟨accepts, State.step_move _ _⟩

theorem Linked.step (h : Linked w [] hand) {input : Input γ κ}
    (admitted : (state w).admits input = true)
    (called : ∀ m ∈ calls (Hosting.step w input).2, next = some m)
    (released : ∀ m, hand = some m → next = some m ∨
      ¬(state (Hosting.step w input).1).Outstanding m) :
    Linked (Hosting.step w input).1 (Hosting.step w input).2 next := by
  obtain ⟨accepts, hmove⟩ := step_move w input
  have hexecutor := LawfulHosting.executor_step w input
  have htimer := LawfulHosting.timer_step w input
  generalize (Hosting.step w input).1 = v at hmove hexecutor htimer called released ⊢
  generalize (Hosting.step w input).2 = effects at hmove called ⊢
  obtain ⟨n, hpaced⟩ := h.paced
  obtain ⟨m, hnext, _⟩ := hpaced.advance h.manned admitted hmove
  have hdrains := hmove.drains
  refine ⟨⟨m, hnext⟩, h.manned.move hmove, ?_, ?_, ?_, ?_, ?_, ?_⟩
  · rw [hexecutor]
    exact h.numbered
  · rw [htimer]
    exact h.orderly
  · intro m outstanding other
    rcases hmove.outstanding hpaced h.manned admitted outstanding with hbefore | hstart | hcall
    · have hhand : hand ≠ some m := by
        intro heq
        rcases released m heq with hnext | hnot
        · exact other hnext
        · exact hnot outstanding
      rcases h.staffed m hbefore hhand with ⟨id, t, hcrew, hmark⟩ | hstart
      · exact .inl ⟨id, t, (crew_congr hexecutor).mpr hcrew, hmark⟩
      · cases hstart
    · exact .inr hstart
    · exact absurd (called m hcall) other
  · intro id t crew
    refine (h.tended id t ((crew_congr hexecutor).mp crew)).imp (fun m ha => ?_) fun job ht => ?_
    · refine ha.congr hexecutor fun a ha => ?_
      rcases ha with hawaited | hdue
      · exact hmove.awaits hpaced h.manned admitted hawaited
      · cases hdue
    · exact ht.congr hexecutor
  · intro id job epoch crew
    exact Nat.le_trans (h.epochs id job epoch ((crew_congr hexecutor).mp crew)) hdrains.epoch_le
  · intro grace epoch begin
    cases hdrains with
    | kept phase same quiet =>
        rw [quiet] at begin
        cases begin
    | begun grace' patient was now more quiet =>
        rw [quiet, List.mem_singleton] at begin
        cases begin
        exact Nat.le_of_eq more.symm
    | ceased now more ends => cases ends _ begin

end Lifecycle.Gate.Hosting
