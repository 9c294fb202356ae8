import Lifecycle.Proofs.Relay.Places

/-!
# Consumers that stay

A consumer that comes before its session has given anything, and that does not leave, is given all
that the session gives.  Its inbox is closed when the session is over, and until then the session
can end only by its own doing: it completes or it fails.
-/

namespace Lifecycle.Relay

open Gate.State (Move Paced Manned)

section Runs

theorem State.after_append (s : State) (acts later : List Act) :
    s.after (acts ++ later) = (s.after acts).after later := List.foldl_append

theorem State.history_append (s : State) (acts later : List Act) :
    s.history (acts ++ later) = s.history acts ++ (s.after acts).history later := by
  induction acts generalizing s with
  | nil => rfl
  | cons a rest ih => exact congrArg (⟨s, a⟩ :: ·) (ih (s.act a))

theorem State.orderly_append (s : State) (acts later : List Act) :
    s.orderly (acts ++ later) = true ↔
      s.orderly acts = true ∧ (s.after acts).orderly later = true := by
  induction acts generalizing s with
  | nil => simp [orderly, after]
  | cons a rest ih =>
      rw [List.cons_append, orderly_cons, orderly_cons, ih, and_assoc]
      rfl

/-- The lease of a consumer is given up only when nobody reads its inbox any more, and starting the
producer does not fail. -/
def State.isCivil (s : State) : Act → Bool
  | .gate (.release id) => (s.gate.roster.find? id).all fun k => !s.accepts k
  | .gate (.activated _ result) => (Gate.State.HookEnd.failure result).isNone
  | _ => true

def State.civil (s : State) : List Act → Bool
  | [] => true
  | a :: rest => s.isCivil a && (s.act a).civil rest

theorem State.civil_cons (s : State) (a : Act) (rest : List Act) :
    s.civil (a :: rest) = true ↔ s.isCivil a = true ∧ (s.act a).civil rest = true := by
  simp [civil]

theorem State.civil_append (s : State) (acts later : List Act) :
    s.civil (acts ++ later) = true ↔
      s.civil acts = true ∧ (s.after acts).civil later = true := by
  induction acts generalizing s with
  | nil => simp [civil, after]
  | cons a rest ih =>
      rw [List.cons_append, civil_cons, civil_cons, ih, and_assoc]
      rfl

end Runs

/-! ## What a session gives -/

def Moment.gives? (c : Nat) (m : Moment) : Option Item :=
  match m.act with
  | .emit i v => if i = c ∧ m.before.gate.isCurrent c = true then some (.value v) else none
  | .gate (.fail i e) =>
      if i = c ∧ m.before.gate.isCurrent c = true then some (.failure e) else none
  | _ => none

def Moment.ends (c : Nat) (m : Moment) : Bool :=
  match m.act with
  | .gate (.complete i) | .gate (.fail i _) => i == c && m.before.gate.isCurrent c
  | _ => false

def output (c : Nat) (ms : List Moment) : List Item := ms.filterMap (·.gives? c)

def ended (c : Nat) (ms : List Moment) : Bool := ms.any (·.ends c)

@[simp] theorem output_append (c : Nat) (a b : List Moment) :
    output c (a ++ b) = output c a ++ output c b := List.filterMap_append

theorem output_singleton (c : Nat) (m : Moment) : output c [m] = (m.gives? c).toList := by
  cases h : m.gives? c <;> simp [output, h]

@[simp] theorem ended_append (c : Nat) (a b : List Moment) :
    ended c (a ++ b) = (ended c a || ended c b) := List.any_append

theorem ended_singleton (c : Nat) (m : Moment) : ended c [m] = m.ends c := by
  simp [ended]

section Moments

variable {s : State} {a : Act} {c : Nat}

theorem gives?_of_over (finished : s.gate.isCurrent c = false) : Moment.gives? c ⟨s, a⟩ = none := by
  cases a with
  | emit i v => simp [Moment.gives?, finished]
  | gate input => cases input <;> simp [Moment.gives?, finished]
  | _ => rfl

theorem ends_of_over (finished : s.gate.isCurrent c = false) : Moment.ends c ⟨s, a⟩ = false := by
  cases a with
  | gate input => cases input <;> simp [Moment.ends, finished]
  | _ => rfl

theorem ends_of_completed (current : s.gate.isCurrent c = true) :
    Moment.ends c ⟨s, .gate (.complete c)⟩ = true := by
  simp [Moment.ends, current]

theorem ends_of_failed (current : s.gate.isCurrent c = true) {e : ProducerError} :
    Moment.ends c ⟨s, .gate (.fail c e)⟩ = true := by
  simp [Moment.ends, current]

theorem gives?_of_failed (current : s.gate.isCurrent c = true) {e : ProducerError} :
    Moment.gives? c ⟨s, .gate (.fail c e)⟩ = some (.failure e) :=
  if_pos ⟨rfl, current⟩

theorem gives?_of_emitted {m : Moment} {v : Value} (emitted : m.emitted? c = some v) :
    m.gives? c = some (.value v) := by
  obtain ⟨hact, hcurrent⟩ := emitted?_eq_some_iff.mp emitted
  simp [Moment.gives?, hact, hcurrent]

theorem emissions_of_silent {ms : List Moment} (silent : output c ms = []) :
    emissions c ms = [] := by
  rw [output, List.filterMap_eq_nil_iff] at silent
  refine List.filterMap_eq_nil_iff.mpr fun m hm => ?_
  cases hemitted : m.emitted? c with
  | none => rfl
  | some v =>
      have hgives := gives?_of_emitted hemitted
      rw [silent m hm] at hgives
      cases hgives

end Moments

/-! ## Consumers and their session -/

section Parting

variable {accepts : Nat → Bool} {s t : GateState} {input : Input} {effects : List Effect}
  {n c k : Nat}

inductive Fate (s t : GateState) (c k : Nat) : Input → Prop
  | stays {input : Input} (current : t.isCurrent c = true) (member : k ∈ t.roster.members) :
      Fate s t c k input
  | leaves (id : Gate.ConsumerId) (own : s.roster.find? id = some k) : Fate s t c k (.release id)
  | completed (finished : t.isCurrent c = false) : Fate s t c k (.complete c)
  | failed (e : ProducerError) (finished : t.isCurrent c = false) : Fate s t c k (.fail c e)
  | unstarted (i : Nat) (result : Gate.HookEnd)
      (failure : (Gate.State.HookEnd.failure result).isSome = true) :
      Fate s t c k (.activated i result)

theorem fate_of_release {id : Gate.ConsumerId} {j : Nat} (numbered : s.roster.Numbered)
    (attached : s.roster.find? id = some j) (member : k ∈ s.roster.members)
    (stays : k ∈ (s.roster.erase id).members → t.isCurrent c = true ∧ k ∈ t.roster.members) :
    Fate s t c k (.release id) := by
  rcases List.mem_cons.mp ((numbered.members_perm attached).mem_iff.mp member) with rfl | hother
  · exact .leaves id attached
  · exact .stays (stays hother).1 (stays hother).2

theorem fate_move (h : Paced s n) (manned : Manned s) (numbered : s.roster.Numbered)
    (admitted : s.admits input = true) (move : Move accepts s input t effects)
    (current : s.isCurrent c = true) (member : k ∈ s.roster.members) : Fate s t c k input := by
  obtain ⟨m, hnext⟩ : ∃ m, Paced t m := by
    rcases h.move manned admitted move with ⟨hnext, _⟩ | ⟨hnext, _⟩ <;> exact ⟨_, hnext⟩
  obtain ⟨hlive, hc⟩ := (h.isCurrent_iff c).mp current
  have hlasts (live : t.phase.isLive = true) (same : t.teardowns.length = s.teardowns.length) :
      t.isCurrent c = true := (hnext.isCurrent_iff c).mpr ⟨live, by omega⟩
  have hover (dead : t.phase.isLive = false) : t.isCurrent c = false :=
    Gate.State.isCurrent_eq_false dead c
  have hoccupied : s.roster.isEmpty = false := by
    rw [Bool.eq_false_iff, ne_eq, Gate.Roster.isEmpty_iff]
    exact List.ne_nil_of_mem member
  -- A roster with a consumer in it keeps the gate from most ends of a session.
  have hvacant {p : Prop} (empty : s.roster.isEmpty = true) : p := by
    rw [hoccupied] at empty
    cases empty
  have hlast {id : Gate.ConsumerId} (last : (s.roster.erase id).isEmpty = true) {p : Prop}
      (other : k ∈ (s.roster.erase id).members) : p := by
    rw [Gate.Roster.isEmpty_iff.mp last] at other
    cases other
  cases move with
  | refuse => exact .stays current member
  | begin j inactive =>
      rw [Gate.Phase.eq_inactive_iff, hlive] at inactive
      cases inactive
  | join j => exact .stays (hlasts hlive rfl) (by simp [member])
  | rejoin j => exact .stays (hlasts rfl rfl) (by simp [member])
  | part id j attached =>
      exact fate_of_release numbered attached member fun other => ⟨hlasts hlive rfl, other⟩
  | drain id j grace attached last =>
      exact fate_of_release numbered attached member (hlast last)
  | partLast id j attached last =>
      exact fate_of_release numbered attached member (hlast last)
  | elapse _ _ _ empty => exact hvacant empty
  | update => exact .stays (hlasts hlive rfl) member
  | complete i live =>
      cases h.current_unique live current
      exact .completed (hover rfl)
  | fail i e live =>
      cases h.current_unique live current
      exact .failed e (hover rfl)
  | failLate => exact .stays current member
  | call => exact .stays (hlasts hlive rfl) member
  | skip i due cancelled =>
      rw [h.uncancelled_of_due due] at cancelled
      cases cancelled
  | activated i result runs outcome =>
      generalize hfailure : Gate.State.HookEnd.failure result = failure at outcome
      cases outcome with
      | failed => exact .unstarted i result (by rw [hfailure]; rfl)
      | deserted _ _ empty => exact hvacant empty
      | active => exact .stays (hlasts rfl rfl) member
      | late => exact .stays (hlasts hlive rfl) member
  | deactivate => exact .stays (hlasts hlive (List.length_modify _ _ _)) member
  | deactivated => exact .stays (hlasts hlive (List.length_modify _ _ _)) member
  | drop =>
      have hheld : s.isHeld = true := by simp [Gate.State.isHeld, hoccupied]
      simp [Gate.State.admits, hheld] at admitted

end Parting

/-- A consumer that came when its session had given nothing.  As long as somebody reads its inbox,
it is given all that the session gives, and it stays until the session ends by itself. -/
structure Hears (s : State) (c k : Nat) (b : Inbox) (past : List Moment) : Prop where
  get : s.inboxes[k]? = some b
  begun : c < s.gate.sessions.length
  live : k ∈ s.gate.roster.members → s.gate.isCurrent c = true
  delivered : b.abandoned = false → b.delivered = output c past
  stays : b.abandoned = false → s.gate.isCurrent c = true → k ∈ s.gate.roster.members
  finished : b.abandoned = false → (s.gate.isCurrent c = false ↔ ended c past = true)

section Hears

variable {s : State} {past : List Moment} {a : Act} {c k : Nat} {b d : Inbox}

theorem sessions_le_act (s : State) (a : Act) :
    s.gate.sessions.length ≤ (s.act a).gate.sessions.length := by
  rw [s.gate_act a]
  cases s.occasion? a with
  | none => exact Nat.le_refl _
  | some o => exact (Gate.State.take_move s.gate o).sessions_le

theorem sessions_le_after (s : State) (acts : List Act) :
    s.gate.sessions.length ≤ (s.after acts).gate.sessions.length := by
  induction acts generalizing s with
  | nil => exact Nat.le_refl _
  | cons a rest ih => exact Nat.le_trans (sessions_le_act s a) (ih (s.act a))

theorem teardowns_le_act (s : State) (a : Act) :
    s.gate.teardowns.length ≤ (s.act a).gate.teardowns.length := by
  rw [s.gate_act a]
  cases s.occasion? a with
  | none => exact Nat.le_refl _
  | some o => exact (Gate.State.take_move s.gate o).teardowns_le

theorem Kept.over_act (h : Kept s past) (admitted : s.admits a = true)
    (begun : c < s.gate.sessions.length) (finished : s.gate.isCurrent c = false) :
    (s.act a).gate.isCurrent c = false := by
  obtain ⟨n, hpaced⟩ := h.paced
  obtain ⟨m, hnext⟩ := (h.act admitted).paced
  have hcancelled : s.gate.isCancelled c = true := by
    rw [← Bool.not_eq_false, ← hpaced.isCurrent_iff_uncancelled begun, finished]
    exact Bool.noConfusion
  have hpast := (hpaced.isCancelled_iff c).mp hcancelled
  have hgrown := teardowns_le_act s a
  rw [← Bool.not_eq_true, hnext.isCurrent_iff]
  rintro ⟨_, rfl⟩
  omega

theorem over_of_ends (ends : Moment.ends c ⟨s, a⟩ = true) :
    (s.act a).gate.isCurrent c = false := by
  cases a with
  | gate input =>
      have hgate : (s.act (.gate input)).gate = (s.gate.step s.accepts input).1 := s.gate_step input
      rw [hgate]
      cases input with
      | complete i =>
          simp only [Moment.ends, Bool.and_eq_true, beq_iff_eq] at ends
          obtain ⟨rfl, hcurrent⟩ := ends
          simp only [Gate.State.step, Gate.State.complete, hcurrent, if_true]
          exact Gate.State.isCurrent_eq_false rfl _
      | fail i e =>
          simp only [Moment.ends, Bool.and_eq_true, beq_iff_eq] at ends
          obtain ⟨rfl, hcurrent⟩ := ends
          simp only [Gate.State.step, Gate.State.fail, hcurrent, if_true]
          exact Gate.State.isCurrent_eq_false rfl _
      | _ => cases ends
  | _ => cases ends

theorem gives?_gate {input : Input} (lasts : (s.act (.gate input)).gate.isCurrent c = true) :
    Moment.gives? c ⟨s, .gate input⟩ = none := by
  cases input with
  | fail i e =>
      by_cases hi : i = c ∧ s.gate.isCurrent c = true
      · have hends : Moment.ends c ⟨s, .gate (.fail i e)⟩ = true := by simp [Moment.ends, hi]
        rw [over_of_ends hends] at lasts
        cases lasts
      · simp only [Moment.gives?, if_neg hi]
  | _ => rfl

structure Fares (s : State) (a : Act) (c k : Nat) : Prop where
  given : gains c k s a = (Moment.gives? c ⟨s, a⟩).toList
  stays : (s.act a).gate.isCurrent c = true → k ∈ (s.act a).gate.roster.members
  ends : (s.act a).gate.isCurrent c = false → Moment.ends c ⟨s, a⟩ = true

theorem Kept.fares_gate (h : Kept s past) (paired : Paired s) {input : Input}
    (admitted : s.admits (.gate input) = true) (civil : s.isCivil (.gate input) = true)
    (get : s.inboxes[k]? = some b) (read : b.abandoned = false)
    (current : s.gate.isCurrent c = true) (member : k ∈ s.gate.roster.members) :
    Fares s (.gate input) c k := by
  obtain ⟨n, hpaced⟩ := h.paced
  have hgate : (s.act (.gate input)).gate = (s.gate.step s.accepts input).1 := s.gate_step input
  have hmove : Move s.accepts s.gate input _ _ := Gate.State.step_move s.gate input
  have hadmitted : s.gate.admits input = true := State.admits_occasion admitted rfl
  have hfate := fate_move hpaced h.manned paired.numbered hadmitted hmove current member
  have hk : k < s.inboxes.length := (List.getElem?_eq_some_iff.mp get).1
  have hlost (finished : (s.act (.gate input)).gate.isCurrent c = false) :
      k ∉ (s.act (.gate input)).gate.roster.members := by
    intro hstays
    rw [(h.remains admitted hk hstays).2 c current] at finished
    cases finished
  rw [← hgate] at hfate
  have hgains : gains c k s (.gate input) = _ := gains_gate member
  cases hfate with
  | stays lasts stays =>
      refine ⟨?_, fun _ => stays, fun finished => ?_⟩
      · rw [hgains, farewell_of_kept fun _ => stays, gives?_gate lasts]
        rfl
      · rw [lasts] at finished
        cases finished
  | leaves id own =>
      have haccepts : s.accepts k = true := by simp [State.accepts, get, read]
      simp [State.isCivil, own, haccepts] at civil
  | completed finished =>
      refine ⟨?_, fun lasts => ?_, fun _ => ends_of_completed current⟩
      · rw [hgains, farewell_of_silent rfl]
        rfl
      · rw [finished] at lasts
        cases lasts
  | failed e finished =>
      refine ⟨?_, fun lasts => ?_, fun _ => ends_of_failed current⟩
      · rw [hgains, farewell, if_pos ⟨member, hlost finished⟩, gives?_of_failed current]
        simp [failure?]
      · rw [finished] at lasts
        cases lasts
  | unstarted i result failure =>
      rw [State.isCivil, Option.isNone_iff_eq_none] at civil
      rw [civil] at failure
      cases failure

theorem Kept.fares (h : Kept s past) (paired : Paired s) (admitted : s.admits a = true)
    (civil : s.isCivil a = true) (get : s.inboxes[k]? = some b) (read : b.abandoned = false)
    (kept : a ≠ .abandon k) (current : s.gate.isCurrent c = true)
    (member : k ∈ s.gate.roster.members) : Fares s a c k := by
  have hquiet (same : (s.act a).gate = s.gate) (given : gains c k s a = [])
      (silent : Moment.gives? c ⟨s, a⟩ = none) : Fares s a c k := by
    refine ⟨by rw [given, silent]; rfl, fun _ => by rwa [same], fun finished => ?_⟩
    rw [same, current] at finished
    cases finished
  cases a with
  | attach =>
      have hmove : Move s.addInbox.accepts s.gate (.attach s.inboxes.length) _ _ :=
        Gate.State.step_move _ _
      have hadmitted : s.gate.admits (.attach s.inboxes.length) = true := admitted
      obtain ⟨n, hpaced⟩ := h.paced
      have hfate := fate_move hpaced h.manned paired.numbered hadmitted hmove current member
      have hgate : (s.act .attach).gate = _ := s.addInbox.gate_step _
      refine ⟨gains_silent rfl rfl, fun _ => ?_, fun finished => ?_⟩
      · rw [hgate]
        cases hfate with
        | stays _ stays => exact stays
      · rw [hgate] at finished
        cases hfate with
        | stays lasts _ =>
            rw [show s.addInbox.gate = s.gate from rfl, lasts] at finished
            cases finished
  | emit i v =>
      obtain ⟨n, hpaced⟩ := h.paced
      cases hcurrent : s.gate.isCurrent i with
      | false =>
          have hact : s.act (.emit i v) = s := by rw [State.act, State.emit_stale hcurrent]
          have hother : i ≠ c := by
            rintro rfl
            rw [hcurrent] at current
            cases current
          have hemitted : Moment.emitted? c ⟨s, .emit i v⟩ = none := by
            simp [Moment.emitted?, State.emit_stale hcurrent]
          exact hquiet (by rw [hact]) (gains_silent rfl hemitted) (by simp [Moment.gives?, hother])
      | true =>
          have hi : i = c := hpaced.current_unique hcurrent current
          have hgate : (s.act (.emit i v)).gate =
              (s.gate.step s.accepts (.update i (s.keep v))).1 := s.gate_act (.emit i v)
          simp only [Gate.State.step, hcurrent, if_true] at hgate
          refine ⟨?_, fun _ => by rwa [hgate], fun finished => ?_⟩
          · rw [gains_emit hcurrent fun _ => hi, if_pos member]
            simp [Moment.gives?, hi, current]
          · rw [hgate] at finished
            exact absurd (finished.symm.trans current) Bool.noConfusion
  | take j => exact hquiet rfl (gains_silent rfl rfl) rfl
  | takeAll j => exact hquiet rfl (gains_silent rfl rfl) rfl
  | abandon j => exact hquiet rfl (gains_silent rfl rfl) rfl
  | gate input => exact h.fares_gate paired admitted civil get read current member

theorem Hears.act (hears : Hears s c k b past) (h : Kept s past) (paired : Paired s)
    (admitted : s.admits a = true) (civil : s.isCivil a = true) :
    ∃ d, Hears (s.act a) c k d (past ++ [⟨s, a⟩]) := by
  obtain ⟨d, hd, hfilled⟩ := h.filled admitted hears.get hears.live
  have hk : k < s.inboxes.length := (List.getElem?_eq_some_iff.mp hears.get).1
  have hread (read : d.abandoned = false) : b.abandoned = false ∧ a ≠ .abandon k := by
    have hnot := mt hfilled.abandoned.mpr (by rw [read]; exact Bool.noConfusion)
    rw [not_or] at hnot
    exact ⟨Bool.eq_false_iff.mpr hnot.1, hnot.2⟩
  have hfares (read : d.abandoned = false) (current : s.gate.isCurrent c = true) :
      Fares s a c k :=
    h.fares paired admitted civil hears.get (hread read).1 (hread read).2 current
      (hears.stays (hread read).1 current)
  have hover (finished : s.gate.isCurrent c = false) := h.over_act admitted hears.begun finished
  refine ⟨d, hd, Nat.lt_of_lt_of_le hears.begun (sessions_le_act s a), fun member => ?_,
    fun read => ?_, fun read lasts => ?_, fun read => ?_⟩
  · obtain ⟨hbefore, hlive⟩ := h.remains admitted hk member
    exact hlive c (hears.live hbefore)
  · rw [hfilled.delivered, hears.delivered (hread read).1, (hread read).1, output_append,
      output_singleton]
    cases hcurrent : s.gate.isCurrent c with
    | true => simp [(hfares read hcurrent).given]
    | false =>
        have hgone : k ∉ s.gate.roster.members := by
          intro member
          rw [hears.live member] at hcurrent
          cases hcurrent
        simp [gains, hgone, gives?_of_over hcurrent]
  · cases hcurrent : s.gate.isCurrent c with
    | true => exact (hfares read hcurrent).stays lasts
    | false =>
        rw [hover hcurrent] at lasts
        cases lasts
  · rw [ended_append, ended_singleton]
    cases hcurrent : s.gate.isCurrent c with
    | true =>
        have hpast := mt (hears.finished (hread read).1).mpr
          (by rw [hcurrent]; exact Bool.noConfusion)
        rw [Bool.eq_false_iff.mpr hpast, Bool.false_or]
        exact ⟨(hfares read hcurrent).ends, over_of_ends⟩
    | false => simp [hover hcurrent, (hears.finished (hread read).1).mp hcurrent]

end Hears

/-! ## Whole runs -/

structure Attended (s : State) (past : List Moment) : Prop extends Kept s past, Paired s where
  finished : ∀ c, ended c past = true →
    c < s.gate.sessions.length ∧ s.gate.isCurrent c = false

theorem attended_fresh (settings : RelaySettings) : Attended (.fresh settings) [] where
  toKept := kept_fresh settings
  toPaired := paired_fresh settings
  finished _ h := by cases h

section Attended

variable {s : State} {past : List Moment} {a : Act} {acts : List Act} {c k : Nat} {b : Inbox}

theorem begun_of_ends (kept : Kept s past) (ends : Moment.ends c ⟨s, a⟩ = true) :
    c < s.gate.sessions.length := by
  cases hcurrent : s.gate.isCurrent c with
  | false =>
      rw [ends_of_over hcurrent] at ends
      cases ends
  | true =>
      obtain ⟨n, hpaced⟩ := kept.paced
      obtain ⟨hlive, rfl⟩ := (hpaced.isCurrent_iff c).mp hcurrent
      have hcount := hpaced.count_eq hlive
      omega

theorem Attended.act (h : Attended s past) (admitted : s.admits a = true) :
    Attended (s.act a) (past ++ [⟨s, a⟩]) where
  toKept := h.toKept.act admitted
  toPaired := h.toPaired.act h.toKept admitted
  finished c ends := by
    have hgrown := sessions_le_act s a
    rw [ended_append, ended_singleton, Bool.or_eq_true] at ends
    rcases ends with ends | ends
    · obtain ⟨hbegun, hover⟩ := h.finished c ends
      exact ⟨Nat.lt_of_lt_of_le hbegun hgrown, h.toKept.over_act admitted hbegun hover⟩
    · exact ⟨Nat.lt_of_lt_of_le (begun_of_ends h.toKept ends) hgrown, over_of_ends ends⟩

theorem Attended.after (h : Attended s past) (orderly : s.orderly acts = true) :
    Attended (s.after acts) (past ++ s.history acts) := by
  induction acts generalizing s past with
  | nil =>
      rw [State.history, List.append_nil]
      exact h
  | cons a rest ih =>
      rw [State.orderly_cons] at orderly
      rw [State.history, List.append_cons]
      exact ih (h.act orderly.1) orderly.2

theorem Attended.arrives (h : Attended s past) (admitted : s.admits .attach = true)
    (current : (s.act .attach).gate.isCurrent c = true) (silent : output c past = []) :
    ∃ b, Hears (s.act .attach) c s.inboxes.length b (past ++ [⟨s, .attach⟩]) := by
  have hnext := h.act admitted
  obtain ⟨n, hpaced⟩ := hnext.paced
  obtain ⟨i, b, hstanding, hbelongs⟩ := h.toKept.standing_attach admitted
  have hmember := hbelongs.attached
  have hi : i = c := hpaced.current_unique (hstanding.live hmember) current
  subst hi
  obtain ⟨hlive, hi⟩ := (hpaced.isCurrent_iff i).mp current
  have hbegun : i < (s.act .attach).gate.sessions.length := by
    have hcount := hpaced.count_eq hlive
    omega
  have hquiet : ended i (past ++ [⟨s, .attach⟩]) = false := by
    rw [Bool.eq_false_iff]
    intro ends
    have hover := (hnext.finished i ends).2
    rw [current] at hover
    cases hover
  refine ⟨b, hstanding.get, hbegun, hstanding.live, fun _ => ?_, fun _ _ => hmember, fun _ => ?_⟩
  · rw [hstanding.delivered, output_append, silent, output_singleton, replayed,
      emissions_of_silent silent]
    cases (s.act .attach).conflate <;> rfl
  · rw [current, hquiet]
    simp

theorem Hears.after (hears : Hears s c k b past) (h : Attended s past)
    (orderly : s.orderly acts = true) (civil : s.civil acts = true) :
    ∃ d, Hears (s.after acts) c k d (past ++ s.history acts) := by
  induction acts generalizing s past b with
  | nil =>
      rw [State.history, List.append_nil]
      exact ⟨b, hears⟩
  | cons a rest ih =>
      rw [State.orderly_cons] at orderly
      rw [State.civil_cons] at civil
      obtain ⟨d, hd⟩ := hears.act h.toKept h.toPaired orderly.1 civil.1
      rw [State.history, List.append_cons]
      exact ih hd (h.act orderly.1) orderly.2 civil.2

end Attended

end Lifecycle.Relay
