import Lifecycle.Proofs.Relay.Upkeep

/-!
# What a consumer of a relay is given

A consumer belongs to the session that is live when it comes.  It is given the value that is kept,
then what this session emits while it is attached, and at last the failure of the session if that is
what removes it.
-/

namespace Lifecycle.Relay

open Gate.State (Move Paced)

namespace Moment

/-- The consumer loses its place at the gate, or nobody reads its inbox any more. -/
def parts (k : Nat) (m : Moment) : Bool :=
  match m.act with
  | .abandon j => j == k
  | _ => m.before.gate.roster.members.contains k && !m.after.gate.roster.members.contains k

def failure? (c : Nat) (m : Moment) : Option ProducerError :=
  match m.act with
  | .gate input => Relay.failure? c input
  | _ => none

end Moment

/-- What a consumer is given later: what its session emits until it parts, and the failure of the
session if it parts by that. -/
def share (c k : Nat) (later : List Moment) : List Item :=
  (emissions c (later.takeWhile fun m => !m.parts k)).map .value ++
    ((later.find? (·.parts k)).bind (·.failure? c)).toList.map .failure

section Share

variable {c k : Nat} {later : List Moment}

theorem share_snoc_of_gone (gone : later.any (·.parts k) = true) (m : Moment) :
    share c k (later ++ [m]) = share c k later := by
  have hfound : (later.find? (·.parts k)).isSome = true := by
    simpa [List.find?_isSome] using gone
  obtain ⟨p, hp, hparts⟩ := List.any_eq_true.mp gone
  have hstay : (later ++ [m]).takeWhile (fun m => !m.parts k) =
      later.takeWhile fun m => !m.parts k := by
    rw [List.takeWhile_append, if_neg]
    intro hall
    have hmem : p ∈ later.takeWhile fun m => !m.parts k := by
      rwa [(List.takeWhile_sublist _).eq_of_length hall]
    have hstays := (List.all_takeWhile (l := later) (p := fun m => !m.parts k))
    have := List.all_eq_true.mp hstays p hmem
    simp [hparts] at this
  rw [share, share, hstay, List.find?_append, Option.or_of_isSome hfound]

theorem share_snoc (there : later.any (·.parts k) = false) (m : Moment) :
    share c k (later ++ [m]) = share c k later ++
      if m.parts k then (m.failure? c).toList.map .failure
      else (m.emitted? c).toList.map .value := by
  have hstays : ∀ p ∈ later, (!p.parts k) = true := by
    simpa using there
  have hnone : later.find? (·.parts k) = none := by
    simpa using hstays
  have hall : later.takeWhile (fun m => !m.parts k) = later := by
    have happend : (later ++ []).takeWhile (fun m => !m.parts k) = later ++ [] :=
      List.takeWhile_append_of_pos hstays
    rwa [List.append_nil] at happend
  rw [share, share, List.takeWhile_append_of_pos hstays, List.find?_append, hnone, hall]
  cases hparts : m.parts k with
  | true => simp [hparts]
  | false => simp [hparts, emissions_singleton]

end Share

/-! ## One consumer -/

def news (c k : Nat) (m : Moment) : List Item :=
  if m.parts k then (m.failure? c).toList.map .failure else (m.emitted? c).toList.map .value

theorem parts_iff {k : Nat} {s : State} {a : Act} :
    Moment.parts k ⟨s, a⟩ = true ↔ a = .abandon k ∨
      (∀ j, a ≠ .abandon j) ∧ k ∈ s.gate.roster.members ∧ k ∉ (s.act a).gate.roster.members := by
  cases a <;> simp [Moment.parts, Moment.after]

def gains (c k : Nat) (s : State) (a : Act) : List Item :=
  if k ∈ s.gate.roster.members then news c k ⟨s, a⟩ else []

section Gains

variable {s : State} {past : List Moment} {c k : Nat}

theorem gains_silent {a : Act} (failure : Moment.failure? c ⟨s, a⟩ = none)
    (silent : Moment.emitted? c ⟨s, a⟩ = none) : gains c k s a = [] := by
  rw [gains, news, failure, silent]
  split
  · split <;> rfl
  · rfl

theorem gains_emit {i : Nat} {v : Value} (current : s.gate.isCurrent i = true)
    (member : k ∈ s.gate.roster.members → i = c) :
    gains c k s (.emit i v) = if k ∈ s.gate.roster.members then [.value v] else [] := by
  by_cases hk : k ∈ s.gate.roster.members
  · have hi := member hk
    have hroster : (s.act (.emit i v)).gate.roster = s.gate.roster := by
      rw [State.gate_act]
      change (s.gate.step s.accepts (.update i (s.keep v))).1.roster = s.gate.roster
      simp only [Gate.State.step, current, if_true]
    have hparts : Moment.parts k ⟨s, .emit i v⟩ = false := by
      simp [Moment.parts, Moment.after, hroster]
    have hemitted : Moment.emitted? c ⟨s, .emit i v⟩ = some v :=
      emitted?_eq_some_iff.mpr ⟨by rw [hi], by rw [← hi]; exact current⟩
    simp [gains, news, hk, hparts, hemitted]
  · simp [gains, hk]

theorem gains_gate {input : Input} (seen : k ∈ s.gate.roster.members) :
    gains c k s (.gate input) = farewell c k s.gate (s.act (.gate input)).gate input := by
  rw [gains, if_pos seen, news, farewell]
  by_cases hk : k ∈ (s.act (.gate input)).gate.roster.members
  · simp [Moment.parts, Moment.after, hk, Moment.emitted?]
  · simp [Moment.parts, Moment.after, seen, hk, Moment.failure?]

end Gains

structure Filled (b d : Inbox) (abandoned : Prop) (items : List Item) : Prop where
  abandoned : d.abandoned = true ↔ b.abandoned = true ∨ abandoned
  delivered : d.delivered = b.delivered ++ if b.abandoned then [] else items

theorem Inbox.Gets.filled {b d : Inbox} {items : List Item} (h : b.Gets d items) {abandoned : Prop}
    (other : ¬abandoned) : Filled b d abandoned items where
  abandoned := by simp [h.abandoned, other]
  delivered := h.delivered

section Consumer

variable {s : State} {past : List Moment} {a : Act} {c k : Nat} {b : Inbox}

theorem Kept.filled_attach (h : Kept s past) (get : s.inboxes[k]? = some b)
    (live : k ∈ s.gate.roster.members → s.gate.isCurrent c = true) :
    ∃ d, (s.act .attach).inboxes[k]? = some d ∧
      Filled b d (.attach = Act.abandon k) (gains c k s .attach) := by
  obtain ⟨n, hpaced⟩ := h.paced
  have hk : k < s.inboxes.length := (List.getElem?_eq_some_iff.mp get).1
  have hget : s.addInbox.inboxes[k]? = some b := by
    rw [State.addInbox, List.getElem?_append_left hk, get]
  obtain ⟨d, hd, hgets⟩ := (State.posts_step s.addInbox (.attach s.inboxes.length)).2 k b hget
  change b.Gets d (letters k (s.gate.step _ (.attach s.inboxes.length)).2) at hgets
  have hother : (Gate.Input.attach s.inboxes.length : Input).attached? ≠ some k := by
    simp only [Gate.Input.attached?, ne_eq, Option.some.injEq]
    omega
  rw [letters_move (Gate.State.step_move _ _) hpaced h.distinct hother live,
    farewell_of_silent rfl] at hgets
  rw [gains_silent rfl rfl]
  exact ⟨d, hd, hgets.filled Act.noConfusion⟩

theorem Kept.filled_emit (h : Kept s past) (i : Nat) (v : Value) (get : s.inboxes[k]? = some b)
    (live : k ∈ s.gate.roster.members → s.gate.isCurrent c = true) :
    ∃ d, (s.act (.emit i v)).inboxes[k]? = some d ∧
      Filled b d (.emit i v = Act.abandon k) (gains c k s (.emit i v)) := by
  obtain ⟨n, hpaced⟩ := h.paced
  cases hcurrent : s.gate.isCurrent i with
  | true =>
      obtain ⟨d, hd, hgets⟩ := (State.posts_foldl_put h.distinct v s).2 k b get
      obtain ⟨e, he, hlater⟩ :=
        (State.posts_step (s.filled v) (.update i (s.keep v))).2 k d hd
      have hall := hgets.trans hlater
      change b.Gets e ((if k ∈ s.gate.roster.members then [.value v] else []) ++ []) at hall
      rw [List.append_nil] at hall
      rw [gains_emit hcurrent fun hk => hpaced.current_unique hcurrent (live hk), State.act,
        State.emit_current hcurrent]
      exact ⟨e, he, hall.filled Act.noConfusion⟩
  | false =>
      have hact : s.act (.emit i v) = s := by rw [State.act, State.emit_stale hcurrent]
      have hsilent : Moment.emitted? c ⟨s, .emit i v⟩ = none := by
        rw [Option.eq_none_iff_forall_ne_some]
        intro w hw
        obtain ⟨hemit, hlive⟩ := emitted?_eq_some_iff.mp hw
        cases hemit
        rw [hcurrent] at hlive
        cases hlive
      rw [gains_silent rfl hsilent, hact]
      exact ⟨b, get, (Inbox.Gets.refl b).filled Act.noConfusion⟩

theorem filled_modifyInbox (j : Nat) {f : Inbox → Inbox} (get : s.inboxes[k]? = some b)
    (kept : ∀ d : Inbox, d.Gets (f d) []) :
    ∃ d, (s.modifyInbox j f).inboxes[k]? = some d ∧ b.Gets d [] := by
  obtain ⟨d, hd, hgets⟩ := (s.posts_modifyInbox j kept).2 k b get
  dsimp only at hgets
  rw [ite_self] at hgets
  exact ⟨d, hd, hgets⟩

theorem filled_abandon (j : Nat) (get : s.inboxes[k]? = some b) :
    ∃ d, (s.act (.abandon j)).inboxes[k]? = some d ∧
      Filled b d (Act.abandon j = .abandon k) [] := by
  simp only [State.act, State.modifyInbox, List.getElem?_modify, get]
  by_cases hj : j = k
  · refine ⟨b.abandon, by simp [hj], ⟨?_, ?_⟩⟩
    · simp [Inbox.abandon, hj]
    · simp [Inbox.abandon]
  · refine ⟨b, by simp [hj], ⟨?_, ?_⟩⟩
    · simp [hj]
    · simp

theorem Kept.filled_gate (h : Kept s past) {input : Input}
    (admitted : s.admits (.gate input) = true) (get : s.inboxes[k]? = some b)
    (live : k ∈ s.gate.roster.members → s.gate.isCurrent c = true) :
    ∃ d, (s.act (.gate input)).inboxes[k]? = some d ∧
      Filled b d (.gate input = Act.abandon k) (gains c k s (.gate input)) := by
  obtain ⟨n, hpaced⟩ := h.paced
  obtain ⟨d, hd, hgets⟩ := (s.posts_step input).2 k b get
  change b.Gets d (letters k (s.gate.step s.accepts input).2) at hgets
  have hother : input.attached? ≠ some k := by
    cases input with
    | attach j => cases admitted
    | _ => exact fun h => by cases h
  rw [letters_move (Gate.State.step_move _ _) hpaced h.distinct hother live,
    ← State.gate_step] at hgets
  have hgains : gains c k s (.gate input) = farewell c k s.gate (s.step input).1.gate input := by
    by_cases hk : k ∈ s.gate.roster.members
    · exact gains_gate hk
    · rw [gains, if_neg hk, farewell_of_absent hk]
  rw [hgains]
  exact ⟨d, hd, hgets.filled Act.noConfusion⟩

theorem Inbox.gets_take (b : Inbox) : b.Gets b.take.2 [] := by
  unfold Inbox.take
  cases b.delivered[b.taken]? <;> exact ⟨rfl, by simp⟩

theorem Inbox.gets_takeAll (b : Inbox) : b.Gets b.takeAll.2 [] :=
  ⟨rfl, by simp [Inbox.takeAll]⟩

theorem Kept.filled (h : Kept s past) (admitted : s.admits a = true)
    (get : s.inboxes[k]? = some b)
    (live : k ∈ s.gate.roster.members → s.gate.isCurrent c = true) :
    ∃ d, (s.act a).inboxes[k]? = some d ∧ Filled b d (a = .abandon k) (gains c k s a) := by
  cases a with
  | attach => exact h.filled_attach get live
  | emit i v => exact h.filled_emit i v get live
  | take j =>
      obtain ⟨d, hd, hgets⟩ := filled_modifyInbox j get Inbox.gets_take
      rw [gains_silent rfl rfl]
      exact ⟨d, hd, hgets.filled Act.noConfusion⟩
  | takeAll j =>
      obtain ⟨d, hd, hgets⟩ := filled_modifyInbox j get Inbox.gets_takeAll
      rw [gains_silent rfl rfl]
      exact ⟨d, hd, hgets.filled Act.noConfusion⟩
  | abandon j =>
      rw [gains_silent rfl rfl]
      exact filled_abandon j get
  | gate input => exact h.filled_gate admitted get live

theorem Kept.parted_act (h : Kept s past) (admitted : s.admits a = true)
    (old : k < s.inboxes.length) :
    k ∉ s.gate.roster.members ∨ Moment.parts k ⟨s, a⟩ = true ↔
      a = .abandon k ∨ k ∉ (s.act a).gate.roster.members := by
  rw [parts_iff]
  constructor
  · rintro (hgone | habandon | ⟨_, _, hgone⟩)
    · exact .inr fun hmember => hgone (h.remains admitted old hmember).1
    · exact .inl habandon
    · exact .inr hgone
  · rintro (habandon | hgone)
    · exact .inr (.inl habandon)
    · by_cases hmember : k ∈ s.gate.roster.members
      · refine .inr (.inr ⟨?_, hmember, hgone⟩)
        rintro j rfl
        exact hgone hmember
      · exact .inl hmember

/-! ## Whole runs -/

/-- How a consumer stands that came after `earlier`, when `later` has happened since. -/
structure Standing (s : State) (c k : Nat) (b : Inbox) (earlier later : List Moment) : Prop where
  get : s.inboxes[k]? = some b
  delivered : b.delivered = replayed s.conflate c earlier ++ share c k later
  parted : later.any (·.parts k) = true ↔ b.abandoned = true ∨ k ∉ s.gate.roster.members
  live : k ∈ s.gate.roster.members → s.gate.isCurrent c = true

theorem Standing.act {earlier later : List Moment} (standing : Standing s c k b earlier later)
    (h : Kept s past) (admitted : s.admits a = true) :
    ∃ d, Standing (s.act a) c k d earlier (later ++ [⟨s, a⟩]) := by
  obtain ⟨d, hd, hfilled⟩ := h.filled admitted standing.get standing.live
  have hk : k < s.inboxes.length := (List.getElem?_eq_some_iff.mp standing.get).1
  have hremains := h.remains admitted hk
  refine ⟨d, hd, ?_, ?_, ?_⟩
  · rw [hfilled.delivered, standing.delivered, State.conflate_act, List.append_assoc]
    congr 1
    cases hparted : later.any (·.parts k) with
    | true =>
        rw [share_snoc_of_gone hparted]
        rcases standing.parted.mp hparted with habandoned | hgone
        · simp [habandoned]
        · simp [gains, hgone]
    | false =>
        rw [share_snoc hparted]
        have hthere := mt standing.parted.mpr (by simp [hparted])
        rw [not_or, Decidable.not_not] at hthere
        simp [gains, news, hthere.1, hthere.2]
  · rw [List.any_append, Bool.or_eq_true, standing.parted, hfilled.abandoned]
    simp only [List.any_cons, List.any_nil, Bool.or_false]
    rw [or_assoc, or_assoc, h.parted_act admitted hk]
  · intro hmember
    obtain ⟨hbefore, hlive⟩ := hremains hmember
    exact hlive c (standing.live hbefore)

structure Belongs (k c : Nat) (m : Moment) (later : List Moment) : Prop where
  came : m.act = .attach
  own : m.before.inboxes.length = k
  attached : k ∈ m.after.gate.roster.members
  session : ∀ p ∈ m :: later, k ∈ p.after.gate.roster.members →
    ∀ i, p.after.gate.isCurrent i = true ↔ i = c

theorem letters_greeting {accepts : Nat → Bool} {s t : GateState} {effects : List Effect}
    (move : Move accepts s (.attach k) t effects) :
    letters k effects = s.cache.toList.map .value := by
  cases move with
  | refuse _ ignored => exact absurd ignored id
  | begin => exact (letters_replay_self _ _).trans (List.append_nil _)
  | join => exact (letters_replay_self _ _).trans (List.append_nil _)
  | rejoin => exact (letters_replay_self _ _).trans (List.append_nil _)

theorem attached_attach {accepts : Nat → Bool} {s t : GateState} {effects : List Effect}
    (move : Move accepts s (.attach k) t effects) :
    k ∈ t.roster.members ∧ t.phase.isLive = true := by
  have hmember : k ∈ (s.roster.insert k).members := by simp
  cases move with
  | refuse _ ignored => exact absurd ignored id
  | begin => exact ⟨hmember, rfl⟩
  | join _ shared =>
      refine ⟨hmember, ?_⟩
      rcases shared with shared | shared <;> simp only [shared] <;> rfl
  | rejoin => exact ⟨hmember, rfl⟩

theorem Kept.replayed_attach (h : Kept s past) {accepts : Nat → Bool} {t : GateState}
    {effects : List Effect} (move : Move accepts s.gate (.attach k) t effects) {n : Nat}
    (paced : Paced t n) (current : t.isCurrent c = true) :
    s.gate.cache.toList.map .value = replayed s.conflate c past := by
  obtain ⟨_, hpaced⟩ := h.paced
  have hc := (paced.isCurrent_iff c).mp current
  have hcount := paced.count_eq hc.1
  rcases move.since h.manned hc.1 with ⟨hlive, hsessions, _⟩ | ⟨hinactive, hsessions, _⟩
  · have hbefore := hpaced.count_eq hlive
    exact h.cache c ((hpaced.isCurrent_iff c).mpr ⟨hlive, by omega⟩)
  · rw [(h.manned.inactive hinactive).2, replayed, h.unborn c (by omega)]
    cases s.conflate <;> rfl

theorem Kept.standing_attach (h : Kept s past) (admitted : s.admits .attach = true) :
    ∃ c d, Standing (s.act .attach) c s.inboxes.length d past [] ∧
      Belongs s.inboxes.length c ⟨s, .attach⟩ [] := by
  obtain ⟨n, hpaced⟩ := (h.act admitted).paced
  have hmove : Move s.addInbox.accepts s.gate (.attach s.inboxes.length) _ _ :=
    Gate.State.step_move _ _
  have hgate : (s.act .attach).gate =
      (s.gate.step s.addInbox.accepts (.attach s.inboxes.length)).1 := s.addInbox.gate_step _
  rw [← hgate] at hmove
  obtain ⟨hmember, hlive⟩ := attached_attach hmove
  have hcurrent := (hpaced.isCurrent_iff _).mpr ⟨hlive, rfl⟩
  obtain ⟨d, hd, hgets⟩ := (State.posts_step s.addInbox (.attach s.inboxes.length)).2
    s.inboxes.length {} (by simp [State.addInbox])
  change Inbox.Gets {} d (letters s.inboxes.length (s.gate.step _ (.attach s.inboxes.length)).2)
    at hgets
  have hreplayed := h.replayed_attach hmove hpaced hcurrent
  rw [← letters_greeting hmove] at hreplayed
  refine ⟨_, d, ⟨hd, ?_, ?_, fun _ => hcurrent⟩, ⟨rfl, rfl, hmember, ?_⟩⟩
  · rw [hgets.delivered, State.conflate_act, ← hreplayed]
    simp [share, emissions]
  · simp [hgets.abandoned, hmember]
  · intro p hp _ i
    rw [List.mem_singleton.mp hp]
    exact ⟨fun hi => hpaced.current_unique hi hcurrent, fun hi => hi ▸ hcurrent⟩

def Served (s : State) (past : List Moment) : Prop :=
  ∀ k b, s.inboxes[k]? = some b → ∃ earlier m later c, past = earlier ++ m :: later ∧
    Belongs k c m later ∧ Standing s c k b earlier later

theorem Belongs.act {m : Moment} {later : List Moment} (h : Belongs k c m later) {n : Nat}
    (paced : Paced (s.act a).gate n)
    (live : k ∈ (s.act a).gate.roster.members → (s.act a).gate.isCurrent c = true) :
    Belongs k c m (later ++ [⟨s, a⟩]) where
  came := h.came
  own := h.own
  attached := h.attached
  session p hp hmember i := by
    rw [← List.cons_append] at hp
    rcases List.mem_append.mp hp with hp | hp
    · exact h.session p hp hmember i
    · rw [List.mem_singleton.mp hp] at hmember ⊢
      have hcurrent := live hmember
      exact ⟨fun hi => paced.current_unique hi hcurrent, fun hi => hi ▸ hcurrent⟩

theorem Served.act (served : Served s past) (h : Kept s past) (admitted : s.admits a = true) :
    Served (s.act a) (past ++ [⟨s, a⟩]) := by
  obtain ⟨n, hpaced⟩ := (h.act admitted).paced
  intro k d hd
  by_cases hold : k < s.inboxes.length
  · obtain ⟨earlier, m, later, c, hpast, hbelongs, hstanding⟩ :=
      served k _ (List.getElem?_eq_getElem hold)
    obtain ⟨e, hnext⟩ := hstanding.act h admitted
    have he : e = d := Option.some.inj (hnext.get.symm.trans hd)
    rw [he] at hnext
    refine ⟨earlier, m, later ++ [⟨s, a⟩], c, ?_, hbelongs.act hpaced hnext.live, hnext⟩
    rw [hpast, List.append_assoc, List.cons_append]
  · have hlen := (List.getElem?_eq_some_iff.mp hd).1
    have hattach : a = .attach := by
      refine Classical.byContradiction fun hother => ?_
      rw [State.length_act hother] at hlen
      exact hold hlen
    subst hattach
    rw [State.length_attach] at hlen
    have hk : k = s.inboxes.length := by omega
    subst hk
    obtain ⟨c, e, hnew, hbelongs⟩ := h.standing_attach admitted
    have he : e = d := Option.some.inj (hnew.get.symm.trans hd)
    rw [he] at hnew
    exact ⟨past, ⟨s, .attach⟩, [], c, rfl, hbelongs, hnew⟩

theorem served_run {acts : List Act} (h : Kept s past) (served : Served s past)
    (orderly : s.orderly acts = true) : Served (s.after acts) (past ++ s.history acts) := by
  induction acts generalizing s past with
  | nil =>
      rw [State.history, List.append_nil]
      exact served
  | cons a rest ih =>
      rw [State.orderly_cons] at orderly
      rw [State.history, List.append_cons]
      exact ih (h.act orderly.1) (served.act h orderly.1) orderly.2

end Consumer

theorem conflate_after (s : State) (acts : List Act) : (s.after acts).conflate = s.conflate := by
  induction acts generalizing s with
  | nil => rfl
  | cons a rest ih => exact (ih (s.act a)).trans (s.conflate_act a)

theorem consumers_get_their_share (settings : RelaySettings) (acts : List Act)
    (orderly : (State.fresh settings).orderly acts = true) (k : Nat) (b : Inbox)
    (get : ((State.fresh settings).after acts).inboxes[k]? = some b) :
    ∃ earlier m later c, (State.fresh settings).history acts = earlier ++ m :: later ∧
      Belongs k c m later ∧
      b.delivered = replayed settings.conflate c earlier ++ share c k later := by
  have hnone : Served (.fresh settings) [] := fun _ _ hget => by cases hget
  obtain ⟨earlier, m, later, c, hpast, hbelongs, hstanding⟩ :=
    served_run (kept_fresh settings) hnone orderly k b get
  refine ⟨earlier, m, later, c, hpast, hbelongs, ?_⟩
  rw [hstanding.delivered, conflate_after]
  rfl

/-- Three consumers and two sessions.  The second consumer finds a value and is given the failure of
the session, the first one has left by then, and the third one comes for the next session. -/
def troubledBroadcast : List Act :=
  [.attach, .gate (.activate 0), .emit 0 (.number 5), .attach, .gate (.activated 0 .returned),
    .emit 0 (.number 6), .abandon 0, .gate (.release 1), .take 1, .emit 0 (.number 7),
    .gate (.fail 0 (.failed "lost")), .attach, .emit 0 (.number 8), .gate (.deactivate 0),
    .gate (.deactivated 0 none), .gate (.activate 1), .emit 1 (.number 9)]

theorem consumers_of_troubled_broadcast :
    (State.fresh { conflate := true }).orderly troubledBroadcast = true ∧
      ((State.fresh { conflate := true }).after troubledBroadcast).inboxes.map Inbox.delivered =
        [[.value (.number 5), .value (.number 6)],
          [.value (.number 5), .value (.number 6), .value (.number 7), .failure (.failed "lost")],
          [.value (.number 9)]] ∧
      ∃ earlier m later c,
        (State.fresh { conflate := true }).history troubledBroadcast = earlier ++ m :: later ∧
          Belongs 1 c m later ∧
          [.value (.number 5), .value (.number 6), .value (.number 7), .failure (.failed "lost")] =
            replayed true c earlier ++ share c 1 later :=
  ⟨by decide, by decide, consumers_get_their_share { conflate := true } troubledBroadcast
    (by decide) 1 { delivered := [.value (.number 5), .value (.number 6), .value (.number 7),
      .failure (.failed "lost")], taken := 1, closed := true } (by decide)⟩

end Lifecycle.Relay
