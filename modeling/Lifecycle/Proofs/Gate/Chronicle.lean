import Lifecycle.Event
import Lifecycle.Gate.State
import Mathlib.Computability.RegularExpressions

/-!
# The chronicle of a gate's sessions

The chronicle has the producer events of a gate in order, each with the session that it is about,
and the ends of the stopping hooks.  What it tells about one session is part of a word of a regular
language.  A `Ledger` has just enough of a gate to tell what can be written next; every `Turn` of it
keeps the chronicle in form.
-/

namespace Lifecycle

def EventKind.isProducer : EventKind → Bool
  | .producerActivating | .producerActive | .producerDraining | .producerInactive
  | .producerCompleted | .producerFailed => true
  | _ => false

namespace Gate

inductive Notice where
  | event (kind : EventKind)
  | stopped
  deriving DecidableEq, Repr

structure Entry where
  session : Nat
  notice : Notice
  deriving DecidableEq, Repr

def story (i : Nat) (log : List Entry) : List Notice :=
  (log.filter (·.session == i)).map Entry.notice

@[simp] theorem story_append (i : Nat) (a b : List Entry) :
    story i (a ++ b) = story i a ++ story i b := by
  simp [story]

@[simp] theorem story_nil (i : Nat) : story i [] = [] := rfl

theorem story_own (i : Nat) (notice : Notice) (rest : List Entry) :
    story i (⟨i, notice⟩ :: rest) = notice :: story i rest := by
  simp [story]

theorem mem_story_iff {i : Nat} {notice : Notice} {log : List Entry} :
    notice ∈ story i log ↔ ⟨i, notice⟩ ∈ log := by
  simp only [story, List.mem_map, List.mem_filter, beq_iff_eq]
  constructor
  · rintro ⟨⟨session, notice⟩, ⟨hmem, rfl⟩, rfl⟩
    exact hmem
  · intro hmem
    exact ⟨_, ⟨hmem, rfl⟩, rfl⟩

/-! ## The words -/

section Words

open RegularExpression Language

def told (kind : EventKind) : RegularExpression Notice := char (.event kind)

/-- The producer becomes active, and again whenever a consumer comes back in the grace period. -/
def service : RegularExpression Notice :=
  told .producerActive * (told .producerDraining * told .producerActive).star

/-- A session until its producer is to be stopped. -/
def lifetime : RegularExpression Notice :=
  told .producerActivating * (1 + service * (1 + told .producerDraining)) *
    (1 + (told .producerCompleted + told .producerFailed))

/-- A session up to its last event. -/
def sessionGrammar : RegularExpression Notice :=
  lifetime * (char .stopped * told .producerInactive)

/-- How far a session has come in the chronicle. -/
inductive Chapter where
  | unopened
  | opened
  | serving
  | draining
  | finished
  | closed
  deriving DecidableEq, Repr

def Chapter.words : Chapter → RegularExpression Notice
  | .unopened => 1
  | .opened => told .producerActivating
  | .serving => told .producerActivating * service
  | .draining => told .producerActivating * service * told .producerDraining
  | .finished => lifetime
  | .closed => sessionGrammar

def Chapter.isLive : Chapter → Prop
  | .opened | .serving | .draining => True
  | .unopened | .finished | .closed => False

variable {word : List Notice}

section Membership

variable {P Q : RegularExpression Notice} {front back : List Notice}

theorem append_mem (hfront : front ∈ P.matches') (hback : back ∈ Q.matches') :
    front ++ back ∈ (P * Q).matches' :=
  append_mem_mul hfront hback

theorem mem_either_left (h : word ∈ P.matches') : word ∈ (P + Q).matches' := .inl h

theorem mem_either_right (h : word ∈ Q.matches') : word ∈ (P + Q).matches' := .inr h

theorem mem_leaving_out (hword : word ∈ P.matches') : word ∈ (P * (1 + Q)).matches' := by
  have hnil : [] ∈ (1 + Q).matches' := mem_either_left (P := 1) rfl
  have happend := append_mem hword hnil
  rwa [List.append_nil] at happend

theorem append_mem_star (hfront : front ∈ P.star.matches') (hback : back ∈ P.matches') :
    front ++ back ∈ P.star.matches' := by
  obtain ⟨parts, rfl, hparts⟩ := mem_kstar.mp hfront
  refine mem_kstar.mpr ⟨parts ++ [back], by simp, ?_⟩
  intro part hpart
  rcases List.mem_append.mp hpart with hpart | hpart
  · exact hparts part hpart
  · rw [List.mem_singleton.mp hpart]
    exact hback

theorem event_mem_told (kind : EventKind) : [.event kind] ∈ (told kind).matches' :=
  Set.mem_singleton _

end Membership

namespace Chapter

theorem mem_opened_iff : word ∈ opened.words.matches' ↔ word = [.event .producerActivating] :=
  Iff.rfl

theorem serve (h : word ∈ opened.words.matches') :
    word ++ [.event .producerActive] ∈ serving.words.matches' := by
  have hnone : [] ∈ (told .producerDraining * told .producerActive).star.matches' :=
    nil_mem_kstar _
  exact append_mem h (append_mem (event_mem_told .producerActive) hnone)

theorem drain (h : word ∈ serving.words.matches') :
    word ++ [.event .producerDraining] ∈ draining.words.matches' :=
  append_mem h (event_mem_told _)

theorem resume (h : word ∈ draining.words.matches') :
    word ++ [.event .producerActive] ∈ serving.words.matches' := by
  obtain ⟨served, hserved, last, hlast, rfl⟩ := mem_mul.mp h
  obtain ⟨first, hfirst, rest, hrest, rfl⟩ := mem_mul.mp hserved
  obtain ⟨active, hactive, rounds, hrounds, rfl⟩ := mem_mul.mp hrest
  have hround := append_mem hlast (event_mem_told .producerActive)
  have hmore := append_mem_star hrounds hround
  have hword : _ ∈ serving.words.matches' := append_mem hfirst (append_mem hactive hmore)
  simpa only [List.append_assoc] using hword

theorem mem_start {c : Chapter} (live : c.isLive) (h : word ∈ c.words.matches') :
    word ∈ (told .producerActivating *
      (1 + service * (1 + told .producerDraining))).matches' := by
  cases c with
  | unopened => cases live
  | opened => exact mem_leaving_out h
  | serving =>
      obtain ⟨first, hfirst, served, hserved, rfl⟩ := mem_mul.mp h
      exact append_mem hfirst (mem_either_right (mem_leaving_out hserved))
  | draining =>
      obtain ⟨start, hstart, last, hlast, rfl⟩ := mem_mul.mp h
      obtain ⟨first, hfirst, served, hserved, rfl⟩ := mem_mul.mp hstart
      rw [List.append_assoc]
      exact append_mem hfirst (mem_either_right (append_mem hserved (mem_either_right hlast)))
  | finished => cases live
  | closed => cases live

theorem tear {c : Chapter} (live : c.isLive) (h : word ∈ c.words.matches') :
    word ∈ finished.words.matches' :=
  mem_leaving_out (mem_start live h)

theorem finish {c : Chapter} (live : c.isLive) (h : word ∈ c.words.matches') {kind : EventKind}
    (ends : kind = .producerCompleted ∨ kind = .producerFailed) :
    word ++ [.event kind] ∈ finished.words.matches' := by
  refine append_mem (mem_start live h) (mem_either_right ?_)
  rcases ends with rfl | rfl
  · exact mem_either_left (event_mem_told _)
  · exact mem_either_right (event_mem_told _)

theorem close (h : word ∈ finished.words.matches') :
    word ++ [.stopped, .event .producerInactive] ∈ closed.words.matches' := by
  have hstopped : [.stopped] ∈ (char Notice.stopped).matches' := rfl
  exact append_mem h (append_mem hstopped (event_mem_told .producerInactive))

theorem completable {c : Chapter} (h : word ∈ c.words.matches') :
    ∃ rest, word ++ rest ∈ sessionGrammar.matches' := by
  cases c with
  | unopened =>
      have hword : word = [] := h
      have hopened := tear (c := .opened) trivial (mem_opened_iff.mpr rfl)
      rw [hword]
      exact ⟨[.event .producerActivating] ++ _, close hopened⟩
  | opened => exact ⟨_, close (tear (c := .opened) trivial h)⟩
  | serving => exact ⟨_, close (tear (c := .serving) trivial h)⟩
  | draining => exact ⟨_, close (tear (c := .draining) trivial h)⟩
  | finished => exact ⟨_, close h⟩
  | closed => exact ⟨[], by rwa [List.append_nil]⟩

end Chapter

end Words

/-! ## The ledger -/

/-- Two entries, the first before the second: the sessions follow one another, but the next one can
be begun before the producer of the last one is stopped. -/
def InTurn (a b : Entry) : Prop :=
  a.session ≤ b.session ∨
    a.session = b.session + 1 ∧ a.notice = .event .producerActivating ∧
      (b.notice = .stopped ∨ b.notice = .event .producerInactive)

def Entry.hasKind (kind : EventKind) (e : Entry) : Bool := e.notice == .event kind

/-- How many sessions have begun, how many are over, and of how many the producer was stopped. -/
structure Ledger where
  begun : Nat
  finished : Nat
  stopped : Nat
  phase : Phase

namespace Ledger

def liveChapter : Phase → Chapter
  | .inactive => .unopened
  | .activating => .opened
  | .active => .serving
  | .draining => .draining

def chapter (l : Ledger) (i : Nat) : Chapter :=
  if i < l.stopped then .closed
  else if i < l.finished then .finished
  else if i < l.begun then liveChapter l.phase
  else .unopened

structure Balanced (l : Ledger) : Prop where
  begun : l.begun = l.finished + if l.phase.isLive then 1 else 0
  stopped_le : l.stopped ≤ l.finished
  over_le : l.finished ≤ l.stopped + 1
  serving : l.phase = .active ∨ l.phase = .draining → l.stopped = l.finished

/-- What can be written next. -/
inductive Turn (l : Ledger) : List Entry → Ledger → Prop
  | nothing : Turn l [] l
  | begin (inactive : l.phase = .inactive) :
      Turn l [⟨l.begun, .event .producerActivating⟩]
        { l with begun := l.begun + 1, phase := .activating }
  | serve (activating : l.phase = .activating) (free : l.stopped = l.finished) :
      Turn l [⟨l.finished, .event .producerActive⟩] { l with phase := .active }
  | drain (active : l.phase = .active) :
      Turn l [⟨l.finished, .event .producerDraining⟩] { l with phase := .draining }
  | resume (draining : l.phase = .draining) :
      Turn l [⟨l.finished, .event .producerActive⟩] { l with phase := .active }
  | tear (live : l.phase.isLive = true) (free : l.stopped = l.finished) :
      Turn l [] { l with finished := l.finished + 1, phase := .inactive }
  | finish (kind : EventKind) (ends : kind = .producerCompleted ∨ kind = .producerFailed)
      (live : l.phase.isLive = true) (free : l.stopped = l.finished) :
      Turn l [⟨l.finished, .event kind⟩] { l with finished := l.finished + 1, phase := .inactive }
  | close (owed : l.stopped < l.finished) :
      Turn l [⟨l.stopped, .stopped⟩, ⟨l.stopped, .event .producerInactive⟩]
        { l with stopped := l.stopped + 1 }

/-- What holds of the chronicle at every moment.  At most two sessions have begun without their
producer having been stopped, and a session goes on only once that of the session before it was
stopped. -/
structure Moment (log : List Entry) : Prop where
  stopped_le : log.countP (Entry.hasKind .producerInactive) ≤
    log.countP (Entry.hasKind .producerActivating)
  begun_le : log.countP (Entry.hasKind .producerActivating) ≤
    log.countP (Entry.hasKind .producerInactive) + 2
  goes_on : ∀ earlier i notice, log = earlier ++ [⟨i + 1, notice⟩] →
    notice ≠ .event .producerActivating → ⟨i, .event .producerInactive⟩ ∈ earlier

structure Written (l : Ledger) (log : List Entry) : Prop where
  words : ∀ i, story i log ∈ (l.chapter i).words.matches'
  inactive : ∀ i, log.count ⟨i, .event .producerInactive⟩ = if i < l.stopped then 1 else 0
  begun : log.countP (Entry.hasKind .producerActivating) = l.begun
  stopped : log.countP (Entry.hasKind .producerInactive) = l.stopped
  ordered : log.Pairwise InTurn
  always : ∀ told, told <+: log → Moment told

variable {l m : Ledger} {log es : List Entry} {k : Nat}

theorem liveChapter_isLive {phase : Phase} (live : phase.isLive = true) :
    (liveChapter phase).isLive := by
  cases phase with
  | inactive => cases live
  | activating => trivial
  | active => trivial
  | draining => trivial

namespace Balanced

theorem begun_eq (b : Balanced l) (live : l.phase.isLive = true) : l.begun = l.finished + 1 := by
  rw [b.begun, if_pos live]

theorem begun_of_inactive (b : Balanced l) (inactive : l.phase = .inactive) :
    l.begun = l.finished := by
  rw [b.begun, inactive]
  rfl

theorem over_le_begun (b : Balanced l) : l.finished ≤ l.begun := by
  rw [b.begun]
  omega

theorem chapter_over (b : Balanced l) (live : l.phase.isLive = true) :
    l.chapter l.finished = liveChapter l.phase := by
  have hbegun := b.begun_eq live
  have hstopped := b.stopped_le
  rw [chapter, if_neg (by omega), if_neg (by omega), if_pos (by omega)]

theorem chapter_begun (b : Balanced l) : l.chapter l.begun = .unopened := by
  have hover := b.over_le_begun
  have hstopped := b.stopped_le
  rw [chapter, if_neg (by omega), if_neg (by omega), if_neg (by omega)]

end Balanced

theorem chapter_stopped (owed : l.stopped < l.finished) : l.chapter l.stopped = .finished := by
  rw [chapter, if_neg (by omega), if_pos owed]

theorem countP_concat (kind : EventKind) (log : List Entry) (e : Entry) :
    (log ++ [e]).countP (Entry.hasKind kind) =
      log.countP (Entry.hasKind kind) + if e.notice = .event kind then 1 else 0 := by
  simp [List.countP_append, List.countP_singleton, Entry.hasKind]

theorem Moment.concat {e : Entry}
    (low : (log ++ [e]).countP (Entry.hasKind .producerInactive) ≤
      (log ++ [e]).countP (Entry.hasKind .producerActivating))
    (high : (log ++ [e]).countP (Entry.hasKind .producerActivating) ≤
      (log ++ [e]).countP (Entry.hasKind .producerInactive) + 2)
    (goes_on : ∀ i, e.session = i + 1 → e.notice ≠ .event .producerActivating →
      ⟨i, .event .producerInactive⟩ ∈ log) : Moment (log ++ [e]) := by
  refine ⟨low, high, ?_⟩
  intro earlier i notice hsplit hnotice
  obtain ⟨rfl, hlast⟩ := List.append_inj' hsplit rfl
  obtain rfl : e = ⟨i + 1, notice⟩ := List.singleton_inj.mp hlast
  exact goes_on i rfl hnotice

theorem always_concat {e : Entry} (always : ∀ told, told <+: log → Moment told)
    (now : Moment (log ++ [e])) : ∀ told, told <+: log ++ [e] → Moment told := by
  intro told htold
  rcases List.prefix_concat_iff.mp htold with rfl | htold
  · exact now
  · exact always told htold

namespace Written

theorem mem_of_lt (h : Written l log) {i : Nat} (hi : i < l.stopped) :
    ⟨i, .event .producerInactive⟩ ∈ log := by
  rw [← List.count_pos_iff, h.inactive, if_pos hi]
  exact Nat.one_pos

theorem session_lt (h : Written l log) (b : Balanced l) {e : Entry} (he : e ∈ log) :
    e.session < l.begun := by
  rcases Nat.lt_or_ge e.session l.begun with hlt | hge
  · exact hlt
  · have hover := b.over_le_begun
    have hstopped := b.stopped_le
    have hwords := h.words e.session
    rw [chapter, if_neg (by omega), if_neg (by omega), if_neg (by omega)] at hwords
    have hstory : story e.session log = [] := hwords
    have hmem : e.notice ∈ story e.session log := mem_story_iff.mpr he
    rw [hstory] at hmem
    cases hmem

theorem completable (h : Written l log) {told : List Entry} (past : told <+: log) (i : Nat) :
    ∃ rest, story i told ++ rest ∈ sessionGrammar.matches' := by
  obtain ⟨later, rfl⟩ := past
  obtain ⟨rest, hrest⟩ := Chapter.completable (h.words i)
  rw [story_append, List.append_assoc] at hrest
  exact ⟨_, hrest⟩

theorem begun_only (h : Written l log) (b : Balanced l) (owed : l.stopped < l.finished) {e : Entry}
    (he : e ∈ log) (next : l.finished ≤ e.session) :
    e.session = l.finished ∧ e.notice = .event .producerActivating := by
  have hlt := h.session_lt b he
  cases hlive : l.phase.isLive with
  | false =>
      have hbegun := b.begun
      rw [hlive, if_neg (by simp)] at hbegun
      omega
  | true =>
      have hbegun := b.begun_eq hlive
      have hsession : e.session = l.finished := by omega
      have hwords := h.words l.finished
      have hmem : e.notice ∈ story l.finished log := by
        rw [← hsession]
        exact mem_story_iff.mpr he
      refine ⟨hsession, ?_⟩
      rw [b.chapter_over hlive] at hwords
      cases hphase : l.phase with
      | inactive =>
          rw [hphase] at hlive
          cases hlive
      | activating =>
          rw [hphase] at hwords
          rw [Chapter.mem_opened_iff.mp hwords] at hmem
          exact List.mem_singleton.mp hmem
      | active =>
          have := b.serving (.inl hphase)
          omega
      | draining =>
          have := b.serving (.inr hphase)
          omega

end Written

theorem written_empty (phase : Phase) : Written ⟨0, 0, 0, phase⟩ [] where
  words _ := rfl
  inactive _ := rfl
  begun := rfl
  stopped := rfl
  ordered := .nil
  always told htold := by
    rw [List.prefix_nil.mp htold]
    exact ⟨Nat.le_refl _, Nat.zero_le _, fun _ _ _ h => by simp at h⟩

/-! ## Every turn -/

structure Concerns (l m : Ledger) (es : List Entry) (k : Nat) : Prop where
  chapter : ∀ i, i ≠ k → m.chapter i = l.chapter i
  entries : ∀ e ∈ es, e.session = k
  own : ∀ word ∈ (l.chapter k).words.matches', word ++ story k es ∈ (m.chapter k).words.matches'

theorem Concerns.words (c : Concerns l m es k) (h : ∀ i, story i log ∈ (l.chapter i).words.matches')
    (i : Nat) : story i (log ++ es) ∈ (m.chapter i).words.matches' := by
  rw [story_append]
  by_cases hi : i = k
  · rw [hi]
    exact c.own _ (h k)
  · have hnone : story i es = [] := by
      simp only [story, List.map_eq_nil_iff, List.filter_eq_nil_iff, beq_iff_eq]
      intro e he hsession
      exact hi (hsession.symm.trans (c.entries e he))
    rw [hnone, List.append_nil, c.chapter i hi]
    exact h i

theorem concerns_begin (b : Balanced l) (inactive : l.phase = .inactive) :
    Concerns l { l with begun := l.begun + 1, phase := .activating }
      [⟨l.begun, .event .producerActivating⟩] l.begun := by
  have hbegun := b.begun_of_inactive inactive
  have hstopped := b.stopped_le
  constructor
  · intro i hi
    simp only [chapter, inactive, liveChapter]
    split_ifs <;> first | rfl | omega
  · simp
  · intro word hword
    have hchapter : ({ l with begun := l.begun + 1, phase := .activating } : Ledger).chapter
        l.begun = .opened := by
      simp only [chapter, liveChapter]
      rw [if_neg (by omega), if_neg (by omega), if_pos (by omega)]
    rw [b.chapter_begun] at hword
    rw [show word = [] from hword, hchapter, story_own]
    rfl

theorem concerns_phase (b : Balanced l) (live : l.phase.isLive = true) {phase : Phase}
    {notice : Notice}
    (own : ∀ word ∈ (liveChapter l.phase).words.matches',
      word ++ [notice] ∈ (liveChapter phase).words.matches') :
    Concerns l { l with phase } [⟨l.finished, notice⟩] l.finished := by
  have hbegun := b.begun_eq live
  have hstopped := b.stopped_le
  constructor
  · intro i hi
    simp only [chapter]
    split_ifs <;> first | rfl | omega
  · simp
  · intro word hword
    have hchapter : ({ l with phase } : Ledger).chapter l.finished = liveChapter phase := by
      simp only [chapter]
      rw [if_neg (by omega), if_neg (by omega), if_pos (by omega)]
    rw [b.chapter_over live] at hword
    rw [hchapter, story_own]
    exact own word hword

theorem concerns_tear (b : Balanced l) (live : l.phase.isLive = true)
    (free : l.stopped = l.finished) (entries : ∀ e ∈ es, e.session = l.finished)
    (own : ∀ word ∈ (liveChapter l.phase).words.matches',
      word ++ story l.finished es ∈ Chapter.finished.words.matches') :
    Concerns l { l with finished := l.finished + 1, phase := .inactive } es l.finished := by
  have hbegun := b.begun_eq live
  refine ⟨fun i hi => ?_, entries, fun word hword => ?_⟩
  · simp only [chapter]
    split_ifs <;> first | rfl | omega
  · have hchapter : ({ l with finished := l.finished + 1, phase := .inactive } : Ledger).chapter
        l.finished = .finished := by
      simp only [chapter]
      rw [if_neg (by omega), if_pos (by omega)]
    rw [b.chapter_over live] at hword
    rw [hchapter]
    exact own word hword

theorem concerns_close (owed : l.stopped < l.finished) :
    Concerns l { l with stopped := l.stopped + 1 }
      [⟨l.stopped, .stopped⟩, ⟨l.stopped, .event .producerInactive⟩] l.stopped := by
  refine ⟨fun i hi => ?_, by simp, fun word hword => ?_⟩
  · simp only [chapter]
    split_ifs <;> first | rfl | omega
  · have hchapter : ({ l with stopped := l.stopped + 1 } : Ledger).chapter l.stopped =
        .closed := by
      simp only [chapter]
      rw [if_pos (by omega)]
    rw [chapter_stopped owed] at hword
    rw [hchapter, story_own, story_own]
    exact Chapter.close hword

theorem Turn.concerns (b : Balanced l) (turn : Turn l es m) : ∃ k, Concerns l m es k := by
  cases turn with
  | nothing => exact ⟨0, fun _ _ => rfl, by simp, by simp⟩
  | begin inactive => exact ⟨_, concerns_begin b inactive⟩
  | serve activating =>
      refine ⟨_, concerns_phase b ?_ ?_⟩
      · rw [activating]
        rfl
      · rw [activating]
        exact fun _ => Chapter.serve
  | drain active =>
      refine ⟨_, concerns_phase b ?_ ?_⟩
      · rw [active]
        rfl
      · rw [active]
        exact fun _ => Chapter.drain
  | resume draining =>
      refine ⟨_, concerns_phase b ?_ ?_⟩
      · rw [draining]
        rfl
      · rw [draining]
        exact fun _ => Chapter.resume
  | tear live free =>
      refine ⟨_, concerns_tear b live free (by simp) fun word hword => ?_⟩
      rw [story_nil, List.append_nil]
      exact Chapter.tear (liveChapter_isLive live) hword
  | finish kind ends live free =>
      refine ⟨_, concerns_tear b live free (by simp) fun word hword => ?_⟩
      rw [story_own]
      exact Chapter.finish (liveChapter_isLive live) hword ends
  | close owed => exact ⟨_, concerns_close owed⟩

theorem Turn.inactive (turn : Turn l es m) (i : Nat) :
    (if i < l.stopped then 1 else 0) + es.count ⟨i, .event .producerInactive⟩ =
      if i < m.stopped then 1 else 0 := by
  cases turn with
  | nothing => rfl
  | begin => simp
  | serve => simp
  | drain => simp
  | resume => simp
  | tear => rfl
  | finish kind ends =>
      rcases ends with rfl | rfl
      · simp
      · simp
  | close =>
      rcases Nat.lt_trichotomy i l.stopped with hlt | rfl | hgt
      · rw [if_pos hlt, if_pos (Nat.lt_succ_of_lt hlt)]
        simp [hlt.ne']
      · simp
      · rw [if_neg (by omega), if_neg (by simp only; omega)]
        simp [hgt.ne]

structure Counts (l m : Ledger) (es : List Entry) : Prop where
  begun : l.begun + es.countP (Entry.hasKind .producerActivating) = m.begun
  stopped : l.stopped + es.countP (Entry.hasKind .producerInactive) = m.stopped

theorem Turn.counts (turn : Turn l es m) : Counts l m es := by
  cases turn with
  | nothing => exact ⟨rfl, rfl⟩
  | begin => exact ⟨rfl, rfl⟩
  | serve => exact ⟨rfl, rfl⟩
  | drain => exact ⟨rfl, rfl⟩
  | resume => exact ⟨rfl, rfl⟩
  | tear => exact ⟨rfl, rfl⟩
  | finish kind ends => rcases ends with rfl | rfl <;> exact ⟨rfl, rfl⟩
  | close => exact ⟨rfl, rfl⟩

theorem Turn.serving (turn : Turn l es m) {i : Nat}
    (told : ⟨i, .event .producerActive⟩ ∈ es) :
    i = l.finished ∧ l.phase.isLive = true ∧ m.phase.isLive = true ∧ m.finished = l.finished := by
  cases turn with
  | nothing => cases told
  | begin => simp at told
  | serve activating =>
      rw [activating]
      exact ⟨by simpa using told, rfl, rfl, rfl⟩
  | drain => simp at told
  | resume draining =>
      rw [draining]
      exact ⟨by simpa using told, rfl, rfl, rfl⟩
  | tear => cases told
  | finish kind ends => rcases ends with rfl | rfl <;> simp at told
  | close => simp at told

structure Latest (l : Ledger) (e : Entry) : Prop where
  session : l.begun ≤ e.session + 1
  room : l.begun ≤ l.stopped + 1
  kind : e.notice ≠ .event .producerInactive
  goes_on : e.notice ≠ .event .producerActivating → e.session = l.stopped

theorem latest_live (b : Balanced l) (live : l.phase.isLive = true) (free : l.stopped = l.finished)
    {kind : EventKind} (hkind : kind ≠ .producerInactive) : Latest l ⟨l.finished, .event kind⟩ where
  session := (b.begun_eq live).le
  room := by rw [b.begun_eq live, free]
  kind := by simpa using hkind
  goes_on _ := free.symm

theorem Turn.entries (b : Balanced l) (turn : Turn l es m) :
    es = [] ∨ (∃ e, es = [e] ∧ Latest l e) ∨ l.stopped < l.finished ∧
      es = [⟨l.stopped, .stopped⟩, ⟨l.stopped, .event .producerInactive⟩] := by
  cases turn with
  | nothing => exact .inl rfl
  | begin inactive =>
      have hbegun := b.begun_of_inactive inactive
      have hover := b.over_le
      exact .inr (.inl ⟨_, rfl, Nat.le_succ _, by omega, by simp, fun h => absurd rfl h⟩)
  | serve activating free =>
      refine .inr (.inl ⟨_, rfl, latest_live b ?_ free (by simp)⟩)
      rw [activating]
      rfl
  | drain active =>
      refine .inr (.inl ⟨_, rfl, latest_live b ?_ (b.serving (.inl active)) (by simp)⟩)
      rw [active]
      rfl
  | resume draining =>
      refine .inr (.inl ⟨_, rfl, latest_live b ?_ (b.serving (.inr draining)) (by simp)⟩)
      rw [draining]
      rfl
  | tear => exact .inl rfl
  | finish kind ends live free =>
      refine .inr (.inl ⟨_, rfl, latest_live b live free ?_⟩)
      rcases ends with rfl | rfl <;> simp
  | close owed => exact .inr (.inr ⟨owed, rfl⟩)

namespace Written

theorem ordered_latest (h : Written l log) (b : Balanced l) {e : Entry} (latest : Latest l e) :
    (log ++ [e]).Pairwise InTurn := by
  refine List.pairwise_append.mpr ⟨h.ordered, List.pairwise_singleton _ _, ?_⟩
  intro a ha c hc
  rw [List.mem_singleton.mp hc]
  have hlt := h.session_lt b ha
  have hsession := latest.session
  exact .inl (by omega)

theorem ordered_close (h : Written l log) (b : Balanced l) (owed : l.stopped < l.finished) :
    (log ++ [Entry.mk l.stopped .stopped,
      ⟨l.stopped, .event .producerInactive⟩]).Pairwise InTurn := by
  refine List.pairwise_append.mpr ⟨h.ordered, by simp [InTurn], ?_⟩
  intro a ha c hc
  have hc : c.session = l.stopped ∧
      (c.notice = .stopped ∨ c.notice = .event .producerInactive) := by
    rcases List.mem_cons.mp hc with rfl | hc
    · exact ⟨rfl, .inl rfl⟩
    · rw [List.mem_singleton.mp hc]
      exact ⟨rfl, .inr rfl⟩
  have hover := b.over_le
  rcases Nat.lt_or_ge a.session l.finished with hlt | hge
  · exact .inl (by omega)
  · obtain ⟨hsession, hnotice⟩ := h.begun_only b owed ha hge
    exact .inr ⟨by omega, hnotice, hc.2⟩

theorem always_latest (h : Written l log) (b : Balanced l) {e : Entry} (latest : Latest l e) :
    ∀ told, told <+: log ++ [e] → Moment told := by
  have hroom := latest.room
  have hover := b.over_le_begun
  have hle := b.stopped_le
  refine always_concat h.always (Moment.concat ?_ ?_ ?_)
  · rw [countP_concat, countP_concat, h.begun, h.stopped, if_neg latest.kind]
    omega
  · rw [countP_concat, countP_concat, h.begun, h.stopped, if_neg latest.kind]
    split <;> omega
  · intro i hi hnotice
    have hsession := latest.goes_on hnotice
    exact h.mem_of_lt (by omega)

theorem always_close (h : Written l log) (b : Balanced l) (owed : l.stopped < l.finished) :
    ∀ told, told <+: log ++ [⟨l.stopped, .stopped⟩, ⟨l.stopped, .event .producerInactive⟩] →
      Moment told := by
  have hmost := (h.always log List.prefix_rfl).begun_le
  rw [h.begun, h.stopped] at hmost
  have hover := b.over_le_begun
  have hbefore (i : Nat) (hi : l.stopped = i + 1) : ⟨i, .event .producerInactive⟩ ∈ log :=
    h.mem_of_lt (by omega)
  have hended : Moment (log ++ [⟨l.stopped, .stopped⟩]) := by
    refine Moment.concat ?_ ?_ fun i hi _ => hbefore i hi
    · simp only [countP_concat, h.begun, h.stopped, reduceCtorEq, if_false]
      omega
    · simp only [countP_concat, h.begun, h.stopped, reduceCtorEq, if_false]
      exact hmost
  rw [List.append_cons]
  refine always_concat (always_concat h.always hended) (Moment.concat ?_ ?_ ?_)
  · simp only [countP_concat, h.begun, h.stopped, reduceCtorEq, if_false, if_true,
      Notice.event.injEq]
    omega
  · simp only [countP_concat, h.begun, h.stopped, reduceCtorEq, if_false, if_true,
      Notice.event.injEq]
    omega
  · exact fun i hi _ => List.mem_append_left _ (hbefore i hi)

theorem turn (h : Written l log) (b : Balanced l) (turn : Turn l es m) :
    Written m (log ++ es) := by
  obtain ⟨k, hconcerns⟩ := turn.concerns b
  have hcounts := turn.counts
  refine ⟨hconcerns.words h.words, fun i => ?_, ?_, ?_, ?_, ?_⟩
  · rw [List.count_append, h.inactive, turn.inactive]
  · rw [List.countP_append, h.begun, hcounts.begun]
  · rw [List.countP_append, h.stopped, hcounts.stopped]
  · rcases turn.entries b with rfl | ⟨e, rfl, hlatest⟩ | ⟨owed, rfl⟩
    · rw [List.append_nil]
      exact h.ordered
    · exact h.ordered_latest b hlatest
    · exact h.ordered_close b owed
  · rcases turn.entries b with rfl | ⟨e, rfl, hlatest⟩ | ⟨owed, rfl⟩
    · rw [List.append_nil]
      exact h.always
    · exact h.always_latest b hlatest
    · exact h.always_close b owed

end Written

end Ledger

end Gate

end Lifecycle
