import Lifecycle.Proofs.Bus
import Lifecycle.Proofs.Gate.Alternation
import Lifecycle.Proofs.Gate.Chronicle
import Lifecycle.Proofs.Gate.Failures

/-!
# What a gate tells of its sessions

Each event that a step publishes about the producer is about one session.  Written down with it, the
events of a run make up the chronicle of the gate, and every step is a turn of the ledger.
-/

namespace Lifecycle.Gate

section Effects

variable {γ κ : Type}

def Effect.notice? : Effect γ κ → Option Notice
  | .publish e => if e.kind.isProducer then some (.event e.kind) else none
  | .signal (.teardownOver _) => some .stopped
  | _ => none

def notices (effects : List (Effect γ κ)) : List Notice := effects.filterMap Effect.notice?

def Effect.event? : Effect γ κ → Option Event
  | .publish e => some e
  | _ => none

def published (effects : List (Effect γ κ)) : List Event := effects.filterMap Effect.event?

/-- The events that the effects bring onto a bus, in the order of their numbers. -/
def heard (bus : Bus) (effects : List (Effect γ κ)) : List Event :=
  ((published effects).foldl Bus.publish bus).published.toList.drop bus.count

def Notice.kind? : Notice → Option EventKind
  | .event kind => some kind
  | .stopped => none

def producerKinds (events : List Event) : List EventKind :=
  (events.map Event.kind).filter EventKind.isProducer

@[simp] theorem notices_append (a b : List (Effect γ κ)) :
    notices (a ++ b) = notices a ++ notices b := List.filterMap_append

theorem notices_eq_nil {effects : List (Effect γ κ)} (h : ∀ e ∈ effects, e.notice? = none) :
    notices effects = [] := List.filterMap_eq_nil_iff.mpr h

@[simp] theorem notices_reportEffects (s : State γ κ) (e : ProducerError) :
    notices (s.reportEffects e) = [] := rfl

@[simp] theorem notices_close (members : List γ) :
    notices (members.map .close : List (Effect γ κ)) = [] := by
  apply notices_eq_nil
  intro effect heffect
  obtain ⟨c, _, rfl⟩ := List.mem_map.mp heffect
  rfl

@[simp] theorem notices_offers (members : List γ) (e : ProducerError) :
    notices (members.map (.offer · e) : List (Effect γ κ)) = [] := by
  apply notices_eq_nil
  intro effect heffect
  obtain ⟨c, _, rfl⟩ := List.mem_map.mp heffect
  rfl

@[simp] theorem notices_tearDown [Inhabited κ] (s : State γ κ) : notices s.tearDown.2 = [] := by
  simp only [State.tearDown]
  cases s.current <;> rfl

@[simp] theorem notices_drop (s : State γ κ) : notices s.drop.2 = [] := by
  simp only [State.drop]
  cases s.current <;> rfl

@[simp] theorem notices_failLive [Inhabited κ] (accepts : γ → Bool) (s : State γ κ)
    (e : ProducerError) :
    notices (s.failLive accepts e).2 = [.event .producerFailed] := by
  simp only [State.failLive, notices_append, notices_offers, notices_tearDown]
  split <;> rfl

theorem heard_eq (bus : Bus) (effects : List (Effect γ κ)) :
    heard bus effects =
      (published effects).mapIdx fun n e => { e with seq := bus.count + n + 1 } := by
  rw [heard, Bus.published_foldl, Bus.count, ← Array.length_toList, List.drop_left]

theorem heard_numbered (bus : Bus) (effects : List (Effect γ κ)) :
    (heard bus effects).map Event.seq =
      (List.range (published effects).length).map (bus.count + · + 1) := by
  rw [heard_eq]
  apply List.ext_getElem
  · simp
  · intro n h₁ h₂
    simp

theorem kinds_heard (bus : Bus) (effects : List (Effect γ κ)) :
    (heard bus effects).map Event.kind = (published effects).map Event.kind := by
  rw [heard_eq]
  apply List.ext_getElem
  · simp
  · intro n h₁ h₂
    simp

theorem producerKinds_heard (bus : Bus) (effects : List (Effect γ κ)) :
    producerKinds (heard bus effects) = (notices effects).filterMap Notice.kind? := by
  rw [producerKinds, kinds_heard]
  induction effects with
  | nil => rfl
  | cons effect rest ih =>
      cases effect with
      | publish e =>
          cases hkind : e.kind.isProducer <;>
            simp_all [published, notices, Effect.event?, Effect.notice?, Notice.kind?]
      | signal signal => cases signal <;> exact ih
      | _ => exact ih

end Effects

/-- What the effects tell of the producer, with the session that it is told of. -/
def inscribe {γ κ : Type} (subject : Option Nat) (effects : List (Effect γ κ)) : List Entry :=
  subject.toList.flatMap fun i => (notices effects).map (Entry.mk i)

theorem inscribe_eq_nil {γ κ : Type} (subject : Option Nat) {effects : List (Effect γ κ)}
    (quiet : notices effects = []) : inscribe subject effects = [] := by
  cases subject <;> simp [inscribe, quiet]

theorem inscribe_some {γ κ : Type} (i : Nat) (effects : List (Effect γ κ)) :
    inscribe (some i) effects = (notices effects).map (Entry.mk i) := by
  simp [inscribe]

namespace State

variable {γ κ : Type}

def subject (s : State γ κ) : Input γ κ → Option Nat
  | .attach _ => if s.phase = .inactive then some s.sessions.length else s.current
  | .release _ | .drainElapsed _ => s.current
  | .update i _ | .complete i | .fail i _ | .activate i | .activated i _ => some i
  | .deactivate j | .deactivated j _ => s.teardowns[j]?.bind Teardown.session
  | .drop => none

def ledger (s : State γ κ) (n : Nat) : Ledger where
  begun := s.sessions.length
  finished := s.teardowns.length
  stopped := n / 4
  phase := s.phase

theorem Paced.balanced {s : State γ κ} {n : Nat} (h : Paced s n) : (s.ledger n).Balanced := by
  have hlow := h.pace.low
  have hhigh := h.pace.high
  constructor
  · exact h.count
  · simp only [ledger]
    omega
  · simp only [ledger]
    omega
  · intro hserving
    have hpace := h.pace
    simp only [ledger] at hserving ⊢
    rcases hserving with hphase | hphase
    · rw [hphase] at hpace
      simp only [InPace] at hpace
      omega
    · rw [hphase] at hpace
      simp only [InPace] at hpace
      omega

variable {s t : State γ κ} {effects : List (Effect γ κ)} {n : Nat}

/-- A step is a turn of the ledger, and nothing that it tells is left out. -/
structure Told (s t : State γ κ) (n : Nat) (subject : Option Nat) (effects : List (Effect γ κ)) :
    Prop where
  turn : (s.ledger n).Turn (inscribe subject effects) (t.ledger (n + (marks effects).length))
  whole : (inscribe subject effects).map Entry.notice = notices effects

theorem told_nothing (subject : Option Nat) (begun : t.sessions.length = s.sessions.length)
    (finished : t.teardowns.length = s.teardowns.length) (phase : t.phase = s.phase)
    (stopped : (n + (marks effects).length) / 4 = n / 4) (quiet : notices effects = []) :
    Told s t n subject effects where
  turn := by
    have hledger : t.ledger (n + (marks effects).length) = s.ledger n := by
      simp only [ledger, begun, finished, phase, stopped]
    rw [inscribe_eq_nil subject quiet, hledger]
    exact .nothing
  whole := by rw [inscribe_eq_nil subject quiet, quiet, List.map_nil]

theorem told_some {i : Nat} {es : List Notice} (told : notices effects = es)
    (turn : (s.ledger n).Turn (es.map (Entry.mk i)) (t.ledger (n + (marks effects).length))) :
    Told s t n (some i) effects where
  turn := by
    rw [inscribe_some, told]
    exact turn
  whole := by simp [inscribe_some, Function.comp_def]

theorem ledger_over {m : Nat} (h : Paced s n) (live : s.phase.isLive = true) (ended : Paced t m)
    (finished : t.teardowns.length = s.teardowns.length + 1) (phase : t.phase = .inactive)
    (stopped : m / 4 = n / 4) :
    t.ledger m =
      { s.ledger n with finished := (s.ledger n).finished + 1, phase := .inactive } := by
  have hbegun := h.count_eq live
  have hended := ended.count
  rw [phase, finished] at hended
  simp only [ledger, finished, phase, stopped, hended, hbegun]
  rfl

theorem told_tear (h : Paced s n) (live : s.phase.isLive = true)
    (called : 4 * s.teardowns.length + 1 ≤ n) (subject : Option Nat)
    (ended : Paced t (n + (marks effects).length))
    (finished : t.teardowns.length = s.teardowns.length + 1) (phase : t.phase = .inactive)
    (stopped : (n + (marks effects).length) / 4 = n / 4) (quiet : notices effects = []) :
    Told s t n subject effects where
  turn := by
    have hhigh := h.pace.high
    rw [inscribe_eq_nil subject quiet, ledger_over h live ended finished phase stopped]
    refine .tear live ?_
    simp only [ledger]
    omega
  whole := by rw [inscribe_eq_nil subject quiet, quiet, List.map_nil]

theorem told_finish (h : Paced s n) (live : s.phase.isLive = true)
    (called : 4 * s.teardowns.length + 1 ≤ n) (ended : Paced t (n + (marks effects).length))
    (finished : t.teardowns.length = s.teardowns.length + 1) (phase : t.phase = .inactive)
    (stopped : (n + (marks effects).length) / 4 = n / 4) {kind : EventKind}
    (ends : kind = .producerCompleted ∨ kind = .producerFailed)
    (told : notices effects = [.event kind]) :
    Told s t n (some s.teardowns.length) effects := by
  have hhigh := h.pace.high
  refine told_some told ?_
  rw [ledger_over h live ended finished phase stopped]
  refine .finish kind ends live ?_
  simp only [ledger]
  omega

theorem Paced.stopped_iff (h : Paced s n) (i : Nat) :
    s.teardownOver i = true ↔ i < (s.ledger n).stopped := by
  have hhigh := h.pace.high
  simp only [ledger]
  by_cases hi : i < s.teardowns.length
  · rw [h.teardownOver_iff hi]
    omega
  · rw [teardownOver, List.getElem?_eq_none (by omega)]
    simp only [Bool.false_eq_true, false_iff]
    omega

/-! ## One step -/

variable [Inhabited κ] {accepts : γ → Bool}

theorem Paced.move_marks (h : Paced s n) (manned : Manned s) {input : Input γ κ}
    (admitted : s.admits input = true) (move : Move accepts s input t effects) :
    Paced t (n + (marks effects).length) := by
  rcases h.move manned admitted move with ⟨hnext, hmarks⟩ | ⟨hnext, hmarks⟩
  · rw [hmarks]
    exact hnext
  · rw [hmarks]
    exact hnext

theorem Outcome.told (h : Paced s n) {i : Nat} (runs : s.ActivationRuns i)
    {failure : Option ProducerError}
    (outcome : Outcome accepts (s.setActivation i .ended) i failure t effects)
    (ended : Paced t (n + 1)) :
    Told s t n (some i) (.signal (.activationOver i) :: effects) := by
  obtain ⟨hi, hn⟩ := (h.activationRuns_iff i).mp runs
  have hmarks : (marks (.signal (.activationOver i) :: effects)).length = 1 := by
    rw [marks_cons, marks_outcome outcome]
    rfl
  have hlow := h.pace.low
  have hsessions : (s.setActivation i .ended).sessions.length = s.sessions.length := by
    simp [setActivation]
  rw [← hmarks] at ended
  cases outcome with
  | failed e current =>
      rw [isCurrent_setActivation] at current
      obtain ⟨hlive, rfl⟩ := (h.isCurrent_iff i).mp current
      refine told_finish h hlive (by omega) ended ?_ rfl (by omega) (.inr rfl) ?_
      · simp [failLive, tearDown, setActivation]
      · exact notices_failLive _ _ _
  | deserted current =>
      rw [isCurrent_setActivation] at current
      obtain ⟨hlive, rfl⟩ := (h.isCurrent_iff i).mp current
      refine told_tear h hlive (by omega) _ ended ?_ rfl (by omega) ?_
      · simp [tearDown, setActivation]
      · exact (notices_append _ _).trans (by rw [notices_tearDown]; rfl)
  | active current activating =>
      rw [isCurrent_setActivation] at current
      obtain ⟨hlive, rfl⟩ := (h.isCurrent_iff i).mp current
      have hledger : ({ s.setActivation s.teardowns.length .ended with phase := .active } :
          State γ κ).ledger (n + 1) = { s.ledger n with phase := .active } := by
        simp only [ledger, hsessions]
        congr 1
        omega
      refine told_some rfl ?_
      rw [hmarks, hledger]
      refine .serve activating ?_
      simp only [ledger]
      omega
  | late failure past =>
      refine told_nothing _ hsessions rfl rfl (by omega) ?_
      cases failure <;> rfl

theorem Move.told (h : Paced s n) (manned : Manned s) {input : Input γ κ}
    (admitted : s.admits input = true) (move : Move accepts s input t effects) :
    Told s t n (s.subject input) effects := by
  have ended := h.move_marks manned admitted move
  have hpace := h.pace
  cases move with
  | refuse input => exact told_nothing _ rfl rfl rfl rfl rfl
  | begin c inactive =>
      have hledger : ({ s with roster := s.roster.insert c } : State γ κ).beginSession.ledger n =
          { s.ledger n with begun := (s.ledger n).begun + 1, phase := .activating } := by
        simp [ledger, beginSession]
      rw [subject, if_pos inactive]
      refine told_some rfl ?_
      rw [show marks _ = [] from rfl]
      exact hledger ▸ .begin inactive
  | join c shared => exact told_nothing _ rfl rfl rfl rfl rfl
  | rejoin c draining =>
      have hlive : s.phase.isLive = true := by
        rw [draining]
        rfl
      rw [subject, if_neg (by simp [draining]), h.current, if_pos hlive]
      exact told_some rfl (.resume draining)
  | part id c => exact told_nothing _ rfl rfl rfl rfl rfl
  | drain id c grace _ _ active =>
      have hlive : s.phase.isLive = true := by
        rw [active]
        rfl
      rw [subject, h.current, if_pos hlive]
      exact told_some rfl (.drain active)
  | partLast id c _ _ active =>
      have hlive : s.phase.isLive = true := by
        rw [active]
        rfl
      rw [active] at hpace
      simp only [InPace] at hpace
      refine told_tear h hlive (by omega) _ ended (by simp [tearDown]) rfl ?_ ?_
      · rw [marks_append, marks_append, marks_tearDown]
        rfl
      · rw [notices_append, notices_append, notices_tearDown]
        rfl
  | elapse epoch draining =>
      have hlive : s.phase.isLive = true := by
        rw [draining]
        rfl
      rw [draining] at hpace
      simp only [InPace] at hpace
      refine told_tear h hlive (by omega) _ ended (by simp [tearDown]) rfl ?_ ?_
      · rw [marks_append, marks_tearDown]
        rfl
      · rw [notices_append, notices_tearDown]
        rfl
  | update i f => exact told_nothing _ rfl rfl rfl rfl rfl
  | complete i current =>
      obtain ⟨hlive, rfl⟩ := (h.isCurrent_iff i).mp current
      have hcalled := ((h.isKnown_iff _).mp admitted).2
      refine told_finish h hlive hcalled ended (by simp [tearDown]) rfl ?_ (.inl rfl) ?_
      · rw [marks_append, marks_append, marks_close, marks_tearDown]
        rfl
      · rw [notices_append, notices_append, notices_close, notices_tearDown]
        rfl
  | fail i e current =>
      obtain ⟨hlive, rfl⟩ := (h.isCurrent_iff i).mp current
      have hcalled := ((h.isKnown_iff _).mp admitted).2
      refine told_finish h hlive hcalled ended (by simp [failLive, tearDown]) rfl ?_ (.inr rfl)
        (notices_failLive _ _ _)
      rw [marks_failLive]
      rfl
  | failLate i e => exact told_nothing _ rfl rfl rfl rfl rfl
  | call i due =>
      obtain ⟨_, hn⟩ := (h.activationDue_iff i).mp due
      refine told_nothing _ (by simp [setActivation]) rfl rfl ?_ rfl
      rw [show (marks _).length = 1 from rfl]
      omega
  | skip i due cancelled =>
      rw [h.uncancelled_of_due due] at cancelled
      cases cancelled
  | activated i result runs outcome =>
      rw [marks_cons, marks_outcome outcome] at ended
      exact outcome.told h runs ended
  | deactivate j due =>
      obtain ⟨_, hn⟩ := (h.teardownDue_iff j).mp due
      refine told_nothing _ rfl (by simp [setTeardown]) rfl ?_ rfl
      rw [show (marks _).length = 1 from rfl]
      omega
  | deactivated j panic runs =>
      obtain ⟨hj, hn⟩ := (h.teardownRuns_iff j).mp runs
      have hsubject : s.subject (.deactivated j panic) = some j := by
        simp [subject, h.teardowns j hj, teardownAt]
      have hledger : (s.setTeardown j .ended).ledger (n + 1) =
          { s.ledger n with stopped := (s.ledger n).stopped + 1 } := by
        simp only [ledger, setTeardown, List.length_modify]
        congr 1
        omega
      have hclose : (s.ledger n).Turn [⟨j, .stopped⟩, ⟨j, .event .producerInactive⟩]
          ((s.setTeardown j .ended).ledger (n + 1)) := by
        have hstopped : j = (s.ledger n).stopped := by
          simp only [ledger]
          omega
        rw [hledger, hstopped]
        exact .close (by rw [← hstopped]; exact hj)
      rw [hsubject]
      cases panic with
      | none => exact told_some rfl hclose
      | some info => exact told_some rfl hclose
  | drop =>
      refine told_nothing _ ?_ rfl rfl ?_ (notices_drop s)
      · simp only [State.drop, cancelCurrent]
        cases s.current <;> simp
      · simp only [State.drop]
        cases s.current <;> rfl

theorem Move.serving (h : Paced s n) (manned : Manned s) {input : Input γ κ}
    (admitted : s.admits input = true) (move : Move accepts s input t effects) {i : Nat}
    (told : ⟨i, .event .producerActive⟩ ∈ inscribe (s.subject input) effects) :
    s.isCurrent i = true ∧ t.isCurrent i = true := by
  have hnext := h.move_marks manned admitted move
  obtain ⟨hi, hlive, hlives, hover⟩ := (move.told h manned admitted).turn.serving told
  exact ⟨(h.isCurrent_iff i).mpr ⟨hlive, hi⟩,
    (hnext.isCurrent_iff i).mpr ⟨hlives, hi.trans hover.symm⟩⟩

/-! ## Runs -/

def chronicle (s : State γ κ) : List (Occasion γ κ) → List Entry
  | [] => []
  | o :: rest => inscribe (s.subject o.input) (s.take o).2 ++ (s.take o).1.chronicle rest

theorem Paced.chronicle {occasions : List (Occasion γ κ)} {log : List Entry} (h : Paced s n)
    (manned : Manned s) (orderly : s.orderly occasions = true)
    (written : (s.ledger n).Written log) :
    (s.chronicle occasions).map Entry.notice = notices (s.run occasions).2 ∧
      ∃ m, Paced (s.run occasions).1 m ∧
        ((s.run occasions).1.ledger m).Written (log ++ s.chronicle occasions) := by
  induction occasions generalizing s n log with
  | nil =>
      rw [State.chronicle, List.append_nil]
      exact ⟨rfl, n, h, written⟩
  | cons o rest ih =>
      rw [orderly_cons] at orderly
      have hmove := take_move s o
      have htold := hmove.told h manned orderly.1
      have hnext := h.move_marks manned orderly.1 hmove
      have hmanned : Manned (s.take o).1 := manned.step o.input
      obtain ⟨hwhole, m, hm, hwritten⟩ :=
        ih hnext hmanned orderly.2 (written.turn h.balanced htold.turn)
      rw [run_cons, State.chronicle, notices_append, List.map_append, ← List.append_assoc,
        htold.whole, hwhole]
      exact ⟨rfl, m, hm, hwritten⟩

/-- What holds of the chronicle of a run that ends in `s` with the given effects.  It has the
producer events on any bus in their order; what was told of a session can always become a word of
the grammar; and that the producer is inactive is told once, when the stopping hook of the session
is over. -/
structure Narrated (s : State γ κ) (effects : List (Effect γ κ)) (log : List Entry) : Prop where
  heard : ∀ bus, producerKinds (heard bus effects) = (log.map Entry.notice).filterMap Notice.kind?
  numbered : ∀ bus : Bus, (Gate.heard bus effects).map Event.seq =
    (List.range (published effects).length).map (bus.count + · + 1)
  grammatical : ∀ told, told <+: log → ∀ i, ∃ rest, story i told ++ rest ∈ sessionGrammar.matches'
  begun : log.countP (Entry.hasKind .producerActivating) = s.sessions.length
  ordered : log.Pairwise InTurn
  always : ∀ told, told <+: log → Ledger.Moment told
  inactive : ∀ i, log.count ⟨i, .event .producerInactive⟩ = if s.teardownOver i then 1 else 0
  settled : AtRest s → ∀ i,
    log.count ⟨i, .event .producerInactive⟩ = if s.isCancelled i then 1 else 0
  serving : ∀ (o : Occasion γ κ) (i : Nat), s.admits o.input = true →
    ⟨i, .event .producerActive⟩ ∈ inscribe (s.subject o.input) (s.take o).2 →
      s.isCurrent i = true ∧ (s.take o).1.isCurrent i = true

theorem sessions_follow_grammar (name : String) (grace : Option Span)
    (occasions : List (Occasion γ κ))
    (orderly : (fresh name grace : State γ κ).orderly occasions = true) :
    Narrated ((fresh name grace).run occasions).1 ((fresh name grace).run occasions).2
      ((fresh name grace).chronicle occasions) := by
  obtain ⟨hwhole, n, h, hwritten⟩ := (paced_fresh name grace).chronicle
    (manned_fresh name grace) orderly (Ledger.written_empty .inactive)
  obtain ⟨_, _, manned, _⟩ := paced_run name grace orderly
  rw [List.nil_append] at hwritten
  constructor
  · intro bus
    rw [producerKinds_heard, hwhole]
  · exact fun bus => heard_numbered bus _
  · exact fun told past i => hwritten.completable past i
  · exact hwritten.begun
  · exact hwritten.ordered
  · exact hwritten.always
  · intro i
    rw [hwritten.inactive]
    exact if_congr (h.stopped_iff i).symm rfl rfl
  · intro rest i
    have hrow := h.row_of_atRest rest
    rw [hwritten.inactive]
    refine if_congr ?_ rfl rfl
    rw [h.isCancelled_iff, ledger, hrow]
    split <;> simp only <;> omega
  · exact fun o i admitted told => (take_move _ o).serving h manned admitted told

/-- The consumers of the first session leave and come back within the grace period, and a consumer
that comes after it waits for its teardown; the second session fails while its starting hook
runs. -/
def lingeringHandover : List (Occasion Nat Unit) :=
  [.attach 1, .activate 0, .activated 0 .returned, .release 1, .attach 2, .release 2,
    .drainElapsed 3, .attach 3, .deactivate 0, .deactivated 0 (some "stuck"), .activate 1,
    .fail 1 (.failed "lost"), .activated 1 .returned, .deactivate 1, .deactivated 1 none].map
    fun input => { input, accepts := fun _ => true }

theorem lingering_handover_follows_grammar :
    (fresh "gate" (some (Span.ofMs 5)) : State Nat Unit).orderly lingeringHandover = true ∧
      (fresh "gate" (some (Span.ofMs 5)) : State Nat Unit).chronicle lingeringHandover =
        [⟨0, .event .producerActivating⟩, ⟨0, .event .producerActive⟩,
          ⟨0, .event .producerDraining⟩, ⟨0, .event .producerActive⟩,
          ⟨0, .event .producerDraining⟩, ⟨1, .event .producerActivating⟩, ⟨0, .stopped⟩,
          ⟨0, .event .producerInactive⟩, ⟨1, .event .producerFailed⟩, ⟨1, .stopped⟩,
          ⟨1, .event .producerInactive⟩] ∧
      ∀ i, ∃ rest, story i ((fresh "gate" (some (Span.ofMs 5)) : State Nat Unit).chronicle
        lingeringHandover) ++ rest ∈ sessionGrammar.matches' :=
  ⟨by decide, by decide,
    (sessions_follow_grammar "gate" (some (Span.ofMs 5)) lingeringHandover
      (by decide)).grammatical _ List.prefix_rfl⟩

end State

end Lifecycle.Gate
