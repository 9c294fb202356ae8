import Lifecycle.Settings
import Mathlib.Data.List.Induction

/-!
# One slot for an action

What a debouncer is for, without tasks, tokens and timers: there is one slot.  A call puts its
action into the slot, in place of what was there, and fixes when the action is due; at that time,
and not before, the action starts and the slot is free.  The log of a debouncer tells of calls,
starts and its end.
-/

namespace Lifecycle.Debouncer

/-- What happens to a debouncer; `α` are the actions.  Calls are numbered from one. -/
inductive Entry (α : Type) where
  | scheduled (number : Nat) (action : α) (time : Nat) (delay : Span)
  | started (number : Nat) (action : α) (time : Nat)
  | dropped (time : Nat)

namespace Entry

variable {α : Type}

def discards : Entry α → Bool
  | scheduled .. | dropped _ => true
  | started .. => false

def starts (n : Nat) : Entry α → Bool
  | started number _ _ => number == n
  | _ => false

def start? : Entry α → Option (Nat × α)
  | started _ action time => some (time, action)
  | _ => none

end Entry

structure Held (α : Type) where
  number : Nat
  action : α
  due : Nat

structure Slot (α : Type) where
  calls : Nat := 0
  held : Option (Held α) := none
  lastStart : Option Nat := none

namespace Slot

variable {α : Type} {s : Slot α} {leading : Bool} {log before after : List (Entry α)}
  {e : Entry α} {h : Held α} {n number called time : Nat} {action : α} {delay : Span}

def wait (leading : Bool) (s : Slot α) (now : Nat) (delay : Span) : Span :=
  if leading && s.lastStart.all fun start => (Span.ofMs start).ns + delay.ns ≤ (Span.ofMs now).ns
  then .zero else delay

def step (leading : Bool) (s : Slot α) : Entry α → Slot α
  | .scheduled number action time delay =>
      { s with
        calls := s.calls + 1
        held := some ⟨number, action, time + (s.wait leading time delay).ceilMs⟩ }
  | .started _ _ time => { s with held := none, lastStart := some time }
  | .dropped _ => { s with held := none }

/-- What the slot allows.  Nothing else happens while an action is overdue. -/
def Admits (s : Slot α) : Entry α → Prop
  | .scheduled number _ time _ =>
      number = s.calls + 1 ∧ ∀ h, s.held = some h → time ≤ h.due
  | .started number action time => s.held = some ⟨number, action, time⟩
  | .dropped time => ∀ h, s.held = some h → time ≤ h.due

def replay (leading : Bool) (log : List (Entry α)) : Slot α := log.foldl (step leading) {}

theorem replay_append_singleton (leading : Bool) (log : List (Entry α)) (e : Entry α) :
    replay leading (log ++ [e]) = (replay leading log).step leading e := by
  rw [replay, List.foldl_append]
  rfl

/-- Each entry of the log was allowed when it was made. -/
inductive Legal (leading : Bool) : List (Entry α) → Prop
  | nil : Legal leading []
  | snoc {log : List (Entry α)} {e : Entry α} (legal : Legal leading log)
      (admitted : (replay leading log).Admits e) : Legal leading (log ++ [e])

theorem Legal.of_append (h : Legal leading (log ++ after)) : Legal leading log := by
  induction after using List.reverseRecOn with
  | nil => rwa [List.append_nil] at h
  | append_singleton more e ih =>
      rw [← List.append_assoc] at h
      generalize hall : log ++ more ++ [e] = all at h
      cases h with
      | nil => simp at hall
      | snoc legal _ =>
          obtain ⟨hlog, _⟩ := List.append_inj' hall rfl
          rw [← hlog] at legal
          exact ih legal

theorem Legal.admits (h : Legal leading (before ++ e :: after)) :
    (replay leading before).Admits e := by
  rw [List.append_cons] at h
  have hfirst := h.of_append
  generalize hall : before ++ [e] = all at hfirst
  cases hfirst with
  | nil => simp at hall
  | snoc _ admitted =>
      obtain ⟨hbefore, he⟩ := List.append_inj' hall rfl
      rw [hbefore, List.singleton_inj.mp he]
      exact admitted

/-! ## What is held back -/

/-- An action is held back exactly from its call on and until anything happens. -/
theorem held_eq_some_iff :
    (replay leading log).held = some h ↔
      ∃ before called delay, log = before ++ [.scheduled h.number h.action called delay] ∧
        h.due = called + ((replay leading before).wait leading called delay).ceilMs := by
  cases log using List.reverseRecOn with
  | nil =>
      constructor
      · exact nofun
      · rintro ⟨before, called, delay, hlog, _⟩
        simp at hlog
  | append_singleton before e =>
      rw [replay_append_singleton]
      constructor
      · intro held
        cases e with
        | scheduled number action called delay =>
            cases held
            exact ⟨before, called, delay, rfl, rfl⟩
        | started number action time => cases held
        | dropped time => cases held
      · rintro ⟨_, called, delay, hlog, hdue⟩
        obtain ⟨rfl, he⟩ := List.append_inj' hlog rfl
        cases he
        rw [step, ← hdue]

theorem calls_le (leading : Bool) (before after : List (Entry α)) :
    (replay leading before).calls ≤ (replay leading (before ++ after)).calls := by
  induction after using List.reverseRecOn with
  | nil => exact Nat.le_of_eq (by rw [List.append_nil])
  | append_singleton more e ih =>
      rw [← List.append_assoc, replay_append_singleton]
      cases e with
      | scheduled => exact Nat.le_succ_of_le ih
      | started => exact ih
      | dropped => exact ih

theorem Legal.number_eq
    (legal : Legal leading (before ++ .scheduled number action called delay :: after)) :
    number = (replay leading before).calls + 1 :=
  legal.admits.1

theorem Legal.held_number (legal : Legal leading log) (held : (replay leading log).held = some h) :
    h.number = (replay leading log).calls := by
  obtain ⟨before, called, delay, rfl, _⟩ := held_eq_some_iff.mp held
  rw [replay_append_singleton]
  exact legal.number_eq

/-! ## Starts -/

theorem Legal.not_started (legal : Legal leading log) (unknown : (replay leading log).calls < n) :
    log.countP (·.starts n) = 0 := by
  induction legal with
  | nil => rfl
  | @snoc log e legal admitted ih =>
      have hcalls := calls_le leading log [e]
      rw [List.countP_append, ih (Nat.lt_of_le_of_lt hcalls unknown), Nat.zero_add,
        List.countP_singleton, if_neg]
      cases e with
      | started number action time =>
          have hnumber := legal.held_number admitted
          simp only [Entry.starts, beq_iff_eq]
          dsimp only at hnumber
          omega
      | scheduled => exact Bool.false_ne_true
      | dropped => exact Bool.false_ne_true

theorem Legal.held_not_started (legal : Legal leading log)
    (held : (replay leading log).held = some h) : log.countP (·.starts h.number) = 0 := by
  obtain ⟨before, called, delay, rfl, _⟩ := held_eq_some_iff.mp held
  have hnumber := legal.number_eq
  rw [List.countP_append, legal.of_append.not_started (by omega)]
  rfl

theorem Legal.starts_once (legal : Legal leading log) (n : Nat) :
    log.countP (·.starts n) ≤ 1 := by
  induction legal with
  | nil => exact Nat.zero_le _
  | @snoc log e legal admitted ih =>
      rw [List.countP_append, List.countP_singleton]
      split
      · rename_i hstarts
        cases e with
        | started number action time =>
            rw [Entry.starts, beq_iff_eq] at hstarts
            subst hstarts
            exact Nat.le_of_eq (congrArg (· + 1) (legal.held_not_started admitted))
        | scheduled => cases hstarts
        | dropped => cases hstarts
      · exact ih

/-- An action starts when it is due, and nothing happens between its call and its start. -/
theorem Legal.start_eq (legal : Legal leading (before ++ .started number action time :: after)) :
    ∃ earlier called delay, before = earlier ++ [.scheduled number action called delay] ∧
      time = called + ((replay leading earlier).wait leading called delay).ceilMs :=
  held_eq_some_iff.mp legal.admits

theorem Legal.started_next
    (legal : Legal leading (before ++ .scheduled number action called delay :: after))
    (mem : e ∈ after) (starts : e.starts number = true) :
    e = .started number action
        (called + ((replay leading before).wait leading called delay).ceilMs) ∧
      ∃ rest, after = e :: rest := by
  obtain ⟨between, rest, rfl⟩ := List.append_of_mem mem
  cases e with
  | scheduled => cases starts
  | dropped => cases starts
  | started n other time =>
      rw [Entry.starts, beq_iff_eq] at starts
      subst starts
      have hlegal := legal
      rw [← List.cons_append, ← List.append_assoc] at hlegal
      obtain ⟨earlier, called', delay', hcall, htime⟩ := hlegal.start_eq
      have hnumber := legal.number_eq
      cases between using List.reverseRecOn with
      | nil =>
          obtain ⟨rfl, he⟩ := List.append_inj' hcall rfl
          cases he
          exact ⟨by rw [htime], rest, rfl⟩
      | append_singleton more e =>
          -- The same number would have been given to two calls.
          rw [← List.cons_append, ← List.append_assoc] at hcall
          obtain ⟨rfl, he⟩ := List.append_inj' hcall rfl
          have hsecond := hlegal.of_append
          rw [← List.cons_append, ← List.append_assoc, he] at hsecond
          have hother := hsecond.number_eq
          have hcalls := calls_le leading (before ++ [.scheduled n action called delay]) more
          rw [replay_append_singleton, List.append_assoc] at hcalls
          change (replay leading before).calls + 1 ≤ _ at hcalls
          rw [List.singleton_append] at hcalls
          omega

theorem Legal.last_of_undisturbed
    (legal : Legal leading (before ++ .scheduled number action called delay :: after))
    (kept : ∀ e ∈ after, e.discards = false) (waits : ∀ e ∈ after, e.starts number = false) :
    after = [] := by
  cases after with
  | nil => rfl
  | cons e rest =>
      rw [List.append_cons] at legal
      cases e with
      | scheduled => cases kept _ List.mem_cons_self
      | dropped => cases kept _ List.mem_cons_self
      | started n other time =>
          have hheld := legal.admits
          rw [replay_append_singleton] at hheld
          cases hheld
          have hstarts := waits _ List.mem_cons_self
          rw [Entry.starts, beq_self_eq_true] at hstarts
          cases hstarts

end Slot

end Lifecycle.Debouncer
