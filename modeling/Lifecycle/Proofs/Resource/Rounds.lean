import Lifecycle.Proofs.Resource.Aside

/-!
# Rounds in which a stream is forwarded

A body forwards a stream to its resource in rounds.  In each round the token of its task and the
stream are polled together, in any order; when both are ready, the one that is polled first is
taken.  Between two rounds anything may happen.  No outcome is lost, whatever the order is and
whenever the task is cancelled: what the stream brings before the loop ends is written in order, and
its errors are reported.
-/

namespace Lifecycle.Supervisor.Scenario

open HasExecutor

/-! ## Rounds -/

inductive Polled where
  | outcome (o : Outcome Value)
  | pending
  | ended

def Polled.isPending : Polled → Bool
  | pending => true
  | _ => false

/-- What a round of the loop meets: what has happened since the round before, whether the stream is
polled before the token, and what the stream answers. -/
structure Round where
  meanwhile : World → World
  streamFirst : Bool
  polled : Polled

inductive Return where
  | cancelled
  | ended

/-- The token is taken if it is polled first, and also when the stream has to wait. -/
def Round.givesIn (r : Round) (i : Nat) (w : World) : Bool :=
  w.supervisor.isCancelled i && (!r.streamFirst || r.polled.isPending)

def forwardRound (i c : Nat) (w : World) (r : Round) : World × Reaction Signal Round Return :=
  let w := r.meanwhile w
  if r.givesIn i w then (w, .finish .cancelled)
  else
    match r.polled with
    | .outcome o => ((forwardItem i c w (.outcome o)).1, .proceed)
    | .pending => (w, .proceed)
    | .ended => (w, .finish .ended)

def offered : List Round → List (Outcome Value)
  | [] => []
  | r :: rest =>
      match r.polled with
      | .outcome o => o :: offered rest
      | .pending => offered rest
      | .ended => []

/-! ## What a round does -/

inductive Output where
  | reported (r : Report)
  | wrote (o : Outcome Value)

namespace Output

def carry (c : Nat) (w : World) : Output → World
  | reported r => { w with reports := w.reports ++ [r] }
  | wrote o => w.modifyCell c (·.set o)

def report? : Output → Option Report
  | reported r => some r
  | wrote _ => none

def outcome? : Output → Option (Outcome Value)
  | wrote o => some o
  | reported _ => none

end Output

def forwarding (source : String) (key : Value) (o : Outcome Value) : List Output :=
  o.error?.toList.map (fun e => .reported (Resource.report source key e)) ++ [.wrote o]

def roundOutput (source : String) (key : Value) (i : Nat) (w : World) (r : Round) :
    List Output :=
  if r.givesIn i (r.meanwhile w) then []
  else
    match r.polled with
    | .outcome o => forwarding source key o
    | _ => []

structure Tagged (source : String) (key : Value) (i : Nat) (w : World) : Prop where
  name : w.supervisor.name = source
  key : w.supervisor.keyOf i = some key

section Rounds

variable {source : String} {key : Value} {i c : Nat} {u v w : World} {r : Round}
  {rounds before more : List Round} {o : Outcome Value}

theorem modifyCell_set (w : World) (c : Nat) (o : Outcome Value) :
    w.modifyCell c (fun _ => (w.cell c).set o) = w.modifyCell c (·.set o) := by
  have hcells : w.cells.modify c (fun _ => (w.cell c).set o) = w.cells.modify c (·.set o) := by
    refine List.ext_getElem? fun k => ?_
    simp only [List.getElem?_modify, World.cell]
    cases hk : w.cells[k]? with
    | none => rfl
    | some cell => by_cases hc : c = k <;> simp [hc, hk]
  rw [World.modifyCell, World.modifyCell, hcells]

theorem forwardItem_eq (tagged : Tagged source key i w) (o : Outcome Value) :
    (forwardItem i c w (.outcome o)).1 =
      (forwarding source key o).foldl (Output.carry c) w := by
  simp only [forwardItem, Resource.forward, forwarding]
  cases o.error? with
  | none => exact modifyCell_set w c o
  | some e =>
      rw [Option.elim, ← cell_reportFor w i c e, modifyCell_set, reportFor_of_keyOf tagged.key,
        tagged.name]
      rfl

theorem Tagged.carry (tagged : Tagged source key i w) (output : List Output) :
    Tagged source key i (output.foldl (Output.carry c) w) := by
  induction output generalizing w with
  | nil => exact tagged
  | cons e rest ih => cases e <;> exact ih ⟨tagged.name, tagged.key⟩

theorem forwardRound_world (tagged : Tagged source key i (r.meanwhile w)) :
    (forwardRound i c w r).1 =
      (roundOutput source key i w r).foldl (Output.carry c) (r.meanwhile w) := by
  simp only [forwardRound, roundOutput]
  split
  · rfl
  · cases r.polled with
    | outcome o => exact forwardItem_eq tagged o
    | pending | ended => rfl

inductive Came (source : String) (key : Value) (i : Nat) (w : World) (r : Round) :
    World × Reaction Signal Round Return → List Output → Prop
  | goesOn (v : World) (tagged : Tagged source key i v) (lasts : r.polled ≠ .ended) :
      Came source key i w r (v, .proceed) ((offered [r]).flatMap (forwarding source key))
  | ends (last : r.polled = .ended) :
      Came source key i w r (r.meanwhile w, .finish .ended) []
  | givesIn (cancelled : (r.meanwhile w).supervisor.isCancelled i = true)
      (unasked : r.streamFirst = true → r.polled = .pending) :
      Came source key i w r (r.meanwhile w, .finish .cancelled) []

theorem came (tagged : Tagged source key i (r.meanwhile w)) (c : Nat) :
    Came source key i w r (forwardRound i c w r) (roundOutput source key i w r) := by
  simp only [forwardRound, roundOutput]
  split
  · rename_i hgives
    rw [Round.givesIn, Bool.and_eq_true] at hgives
    refine .givesIn hgives.1 fun first => ?_
    have hpending := hgives.2
    rw [first] at hpending
    cases hp : r.polled <;> simp_all [Polled.isPending]
  · have hgoes (v : World) (tagged : Tagged source key i v) :=
      Came.goesOn (r := r) (w := w) v tagged
    cases hp : r.polled with
    | outcome o =>
        have hnext := hgoes _ (tagged.carry (c := c) (forwarding source key o)) (by simp [hp])
        rw [← forwardItem_eq tagged] at hnext
        simpa [offered, hp] using hnext
    | pending => simpa [offered, hp] using hgoes _ tagged
    | ended => exact .ends hp

/-! ## The loop -/

theorem offered_append (lasts : ∀ r ∈ before, r.polled ≠ .ended) :
    offered (before ++ more) = offered before ++ offered more := by
  induction before with
  | nil => rfl
  | cons r rest ih =>
      have hrest := ih fun q hq => lasts q (List.mem_cons_of_mem _ hq)
      have hr := lasts r List.mem_cons_self
      rw [List.cons_append, offered, offered]
      cases hp : r.polled with
      | outcome o => simp [hrest]
      | pending => exact hrest
      | ended => exact absurd hp hr

/-- How the loop stands after the rounds, and what it has written by then.  Where the token comes
first, an outcome that the stream has ready is not asked for. -/
inductive Stand (i c : Nat) (w : World) (rounds : List Round) :
    Course Signal Round Return → List (Outcome Value) → Prop
  | goesOn (lasts : ∀ r ∈ rounds, r.polled ≠ .ended) :
      Stand i c w rounds .completed (offered rounds)
  | ends (before : List Round) (r : Round) (after : List Round)
      (split : rounds = before ++ r :: after) (lasts : ∀ q ∈ before, q.polled ≠ .ended)
      (last : r.polled = .ended) : Stand i c w rounds (.finished .ended) (offered before)
  | givesIn (before : List Round) (r : Round) (after : List Round)
      (split : rounds = before ++ r :: after) (lasts : ∀ q ∈ before, q.polled ≠ .ended)
      (cancelled : (r.meanwhile (runScript (forwardRound i c) w before).1).supervisor.isCancelled
        i = true)
      (unasked : r.streamFirst = true → r.polled = .pending) :
      Stand i c w rounds (.finished .cancelled) (offered before)

theorem Stand.cons {course : Course Signal Round Return} {written : List (Outcome Value)}
    (h : Stand i c v rounds course written) (step : forwardRound i c w r = (v, .proceed))
    (lasts : r.polled ≠ .ended) :
    Stand i c w (r :: rounds) course (offered [r] ++ written) := by
  have hfirst : ∀ q ∈ [r], q.polled ≠ .ended := by simpa using lasts
  have hall {before : List Round} (h : ∀ q ∈ before, q.polled ≠ .ended) :
      ∀ q ∈ r :: before, q.polled ≠ .ended := by simpa [lasts] using h
  cases h with
  | goesOn later =>
      rw [← offered_append hfirst]
      exact .goesOn (hall later)
  | ends before last after split later ended =>
      rw [← offered_append hfirst]
      exact .ends (r :: before) last after (by rw [split]; rfl) (hall later) ended
  | givesIn before last after split later cancelled unasked =>
      rw [← offered_append hfirst]
      refine .givesIn (r :: before) last after (by rw [split]; rfl) (hall later) ?_ unasked
      rw [runScript, step]
      exact cancelled

def Keeps (source : String) (key : Value) (i : Nat) (rounds : List Round) : Prop :=
  ∀ r ∈ rounds, ∀ v, Tagged source key i v → Tagged source key i (r.meanwhile v)

theorem stand (tagged : Tagged source key i w) (keeps : Keeps source key i rounds) (c : Nat) :
    ∃ written, Stand i c w rounds (runScript (forwardRound i c) w rounds).2 written ∧
      tally (forwardRound i c) (roundOutput source key i) w rounds =
        written.flatMap (forwarding source key) := by
  induction rounds generalizing w with
  | nil => exact ⟨[], .goesOn nofun, rfl⟩
  | cons r rest ih =>
      have hcame := came (keeps r List.mem_cons_self w tagged) c
      have hkeeps : Keeps source key i rest := fun q hq => keeps q (List.mem_cons_of_mem _ hq)
      rw [runScript, tally]
      generalize hstep : forwardRound i c w r = result at hcame ⊢
      generalize roundOutput source key i w r = output at hcame ⊢
      cases hcame with
      | goesOn v tagged lasts =>
          obtain ⟨written, hstand, houtput⟩ := ih tagged hkeeps
          refine ⟨offered [r] ++ written, hstand.cons hstep lasts, ?_⟩
          rw [List.flatMap_append, ← houtput]
      | ends last => exact ⟨[], .ends [] r rest rfl nofun last, rfl⟩
      | givesIn cancelled unasked => exact ⟨[], .givesIn [] r rest rfl nofun cancelled unasked, rfl⟩

theorem Stand.isPrefix {course : Course Signal Round Return} {written : List (Outcome Value)}
    (h : Stand i c w rounds course written) : written <+: offered rounds := by
  cases h with
  | goesOn => exact List.prefix_rfl
  | ends before r after split lasts | givesIn before r after split lasts =>
      rw [split, offered_append lasts]
      exact List.prefix_append _ _

def NeverCancelled (i c : Nat) (w : World) (rounds : List Round) : Prop :=
  ∀ before r after, rounds = before ++ r :: after →
    (r.meanwhile (runScript (forwardRound i c) w before).1).supervisor.isCancelled i = false

structure Spared (c : Nat) (v u : World) : Prop where
  known : c < v.cells.length → c < u.cells.length
  reports : u.reports = v.reports
  writes : (u.cell c).writes = (v.cell c).writes

/-- What users can rely on, whenever the task is cancelled and whatever is polled first.  The
outcomes are written in order, the errors among them are reported just before, and nothing else is
to be seen of the loop; as long as it goes on, all that the stream has brought has been written. -/
structure Forwarded (source : String) (key : Value) (i c : Nat) (w : World) (rounds : List Round)
    (written : List (Outcome Value)) : Prop where
  output : tally (forwardRound i c) (roundOutput source key i) w rounds =
    written.flatMap (forwarding source key)
  carried : ∀ before r after v, rounds = before ++ r :: after →
    runScript (forwardRound i c) w before = (v, .completed) →
    (forwardRound i c v r).1 =
      (roundOutput source key i v r).foldl (Output.carry c) (r.meanwhile v)
  seen : c < w.cells.length → (∀ r ∈ rounds, ∀ v, Spared c v (r.meanwhile v)) →
    (runScript (forwardRound i c) w rounds).1.reports =
        w.reports ++ (written.filterMap Outcome.error?).map (Resource.report source key) ∧
      ((runScript (forwardRound i c) w rounds).1.cell c).writes = (w.cell c).writes ++ written
  inOrder : written <+: offered rounds
  stand : Stand i c w rounds (runScript (forwardRound i c) w rounds).2 written
  whole : (∃ r ∈ rounds, r.polled = .ended) →
    NeverCancelled i c w rounds →
    (runScript (forwardRound i c) w rounds).2 = .finished .ended ∧ written = offered rounds
  stops : ∀ ret, (runScript (forwardRound i c) w rounds).2 = .finished ret → ∀ more,
    runScript (forwardRound i c) w (rounds ++ more) = runScript (forwardRound i c) w rounds ∧
      tally (forwardRound i c) (roundOutput source key i) w (rounds ++ more) =
        tally (forwardRound i c) (roundOutput source key i) w rounds

theorem Stand.whole {course : Course Signal Round Return} {written : List (Outcome Value)}
    (h : Stand i c w rounds course written) (last : ∃ r ∈ rounds, r.polled = .ended)
    (uncancelled : NeverCancelled i c w rounds) :
    course = .finished .ended ∧ written = offered rounds := by
  cases h with
  | goesOn lasts =>
      obtain ⟨r, mem, ended⟩ := last
      exact absurd ended (lasts r mem)
  | ends before r after split lasts ended =>
      refine ⟨rfl, ?_⟩
      rw [split, offered_append lasts]
      simp [offered, ended]
  | givesIn before r after split lasts cancelled =>
      rw [uncancelled before r after split] at cancelled
      cases cancelled

theorem tagged_run (tagged : Tagged source key i w) (keeps : Keeps source key i rounds) (c : Nat) :
    Tagged source key i (runScript (forwardRound i c) w rounds).1 := by
  refine runScript_keeps_of_mem (fun _ _ => ([] : List Unit))
    (Q := fun v _ => Tagged source key i v) (fun v _ r hr hv => ?_) [] tagged
  rw [forwardRound_world (keeps r hr v hv)]
  exact (keeps r hr v hv).carry _

theorem report?_forwarding (o : Outcome Value) :
    (forwarding source key o).filterMap Output.report? =
      (o.error?.map (Resource.report source key)).toList := by
  cases o <;> rfl

theorem outcome?_forwarding (o : Outcome Value) :
    (forwarding source key o).filterMap Output.outcome? = [o] := by
  cases o <;> rfl

structure Seen (source : String) (key : Value) (i c : Nat) (w v : World) (log : List Output) :
    Prop where
  tagged : Tagged source key i v
  known : c < v.cells.length
  reports : v.reports = w.reports ++ log.filterMap Output.report?
  writes : (v.cell c).writes = (w.cell c).writes ++ log.filterMap Output.outcome?

theorem Seen.carry {log : List Output} (h : Seen source key i c w v log) (output : List Output) :
    Seen source key i c w (output.foldl (Output.carry c) v) (log ++ output) := by
  induction output generalizing v log with
  | nil => rwa [List.append_nil]
  | cons e rest ih =>
      have hfirst : Seen source key i c w (e.carry c v) (log ++ [e]) := by
        refine ⟨h.tagged.carry [e], ?_, ?_, ?_⟩
        · cases e with
          | reported r => exact h.known
          | wrote o => exact h.known.trans_eq (List.length_modify _ _ _).symm
        · rw [List.filterMap_append, ← List.append_assoc, ← h.reports]
          cases e with
          | reported r => rfl
          | wrote o => exact (List.append_nil _).symm
        · rw [List.filterMap_append, ← List.append_assoc, ← h.writes]
          cases e with
          | reported r => exact (List.append_nil _).symm
          | wrote o =>
              rw [Output.carry, cell_modify, if_pos ⟨rfl, h.known⟩]
              rfl
      rw [List.append_cons]
      exact ih hfirst

theorem Seen.spared {log : List Output} (h : Seen source key i c w v log) (spared : Spared c v u)
    (tagged : Tagged source key i u) : Seen source key i c w u log where
  tagged := tagged
  known := spared.known h.known
  reports := spared.reports.trans h.reports
  writes := spared.writes.trans h.writes

theorem seen_run (tagged : Tagged source key i w) (keeps : Keeps source key i rounds)
    (known : c < w.cells.length) (spares : ∀ r ∈ rounds, ∀ v, Spared c v (r.meanwhile v)) :
    Seen source key i c w (runScript (forwardRound i c) w rounds).1
      (tally (forwardRound i c) (roundOutput source key i) w rounds) := by
  refine runScript_keeps_of_mem (roundOutput source key i) (Q := Seen source key i c w)
    (fun v log r hr hv => ?_) [] ⟨tagged, known, by simp, by simp⟩
  have hround := keeps r hr v hv.tagged
  rw [forwardRound_world hround]
  exact (hv.spared (spares r hr v) hround).carry _

theorem forwards (tagged : Tagged source key i w) (keeps : Keeps source key i rounds) (c : Nat) :
    ∃ written, Forwarded source key i c w rounds written := by
  obtain ⟨written, hstand, houtput⟩ := stand tagged keeps c
  have hreports : (written.flatMap (forwarding source key)).filterMap Output.report? =
      (written.filterMap Outcome.error?).map (Resource.report source key) := by
    simp only [List.filterMap_flatMap, report?_forwarding, List.map_filterMap]
    exact List.filterMap_eq_flatMap_toList _ _ |>.symm
  have hwrites : (written.flatMap (forwarding source key)).filterMap Output.outcome? = written := by
    simp only [List.filterMap_flatMap, outcome?_forwarding, List.flatMap_singleton']
  refine ⟨written, {
    output := houtput
    carried := fun before r after v split through => ?_
    seen := fun known spares => ?_
    inOrder := hstand.isPrefix
    stand := hstand
    whole := hstand.whole
    stops := fun ret finished more => ?_ }⟩
  · subst split
    have hbefore := tagged_run tagged
      (fun q hq => keeps q (List.mem_append_left _ hq) : Keeps source key i before) c
    rw [through] at hbefore
    exact forwardRound_world
      (keeps r (List.mem_append_right _ List.mem_cons_self) v hbefore)
  · have hseen := seen_run tagged keeps known spares
    rw [houtput] at hseen
    exact ⟨hreports ▸ hseen.reports, hwrites ▸ hseen.writes⟩
  · have hstopped : runScript (forwardRound i c) w rounds = (_, .finished ret) :=
      Prod.ext rfl finished
    rw [hstopped]
    exact runScript_finished _ hstopped more

end Rounds

end Lifecycle.Supervisor.Scenario
