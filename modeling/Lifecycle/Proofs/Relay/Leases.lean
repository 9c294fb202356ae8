import Lifecycle.Proofs.Relay.Pumping

/-!
# Who holds the consumers of a relay

A consumer that has its place at the gate is held by a user, under a name, or by a task that reads
its inbox.  It gives up its place when nobody holds it any more.
-/

namespace Lifecycle.Relay

open Gate.State (Move)

section Members

variable {s : State} {past : List Moment} {a : Act} {acts : List Act} {k : Nat}

theorem members_act (admitted : s.admits a = true) (member : k ∈ (s.act a).gate.roster.members) :
    k ∈ s.gate.roster.members ∨ a = .attach ∧ k = s.inboxes.length := by
  rw [s.gate_act a] at member
  cases hasked : s.occasion? a with
  | none =>
      rw [hasked] at member
      exact .inl member
  | some o =>
      rw [hasked] at member
      obtain ⟨e, he, rfl⟩ := List.mem_map.mp member
      have henrols := enrols_move (Gate.State.take_move s.gate o)
      rcases henrols.entries e he with hold | ⟨c, hcoming, rfl⟩
      · exact .inl (List.mem_map_of_mem hold)
      · rcases State.attached_occasion admitted hasked with ⟨hattach, hattached⟩ | ⟨_, hnobody⟩
        · rw [hcoming] at hattached
          exact .inr ⟨hattach, Option.some.inj hattached⟩
        · rw [hcoming] at hnobody
          cases hnobody

theorem members_after (orderly : s.orderly acts = true) (nobody : ∀ a ∈ acts, a ≠ .attach)
    (member : k ∈ (s.after acts).gate.roster.members) : k ∈ s.gate.roster.members := by
  induction acts generalizing s with
  | nil => exact member
  | cons a rest ih =>
      rw [State.orderly_cons] at orderly
      have hrest := ih orderly.2 (fun a ha => nobody a (List.mem_cons_of_mem _ ha)) member
      exact (members_act orderly.1 hrest).resolve_right fun h => nobody a List.mem_cons_self h.1

theorem Paired.not_mem_release (h : Paired s) (k : Nat) :
    k ∉ (s.act (.gate (.release (k + 1)))).gate.roster.members := by
  have hgate : (s.act (.gate (.release (k + 1)))).gate = _ := s.gate_step (.release (k + 1))
  have hmove : Move s.accepts s.gate (.release (k + 1)) _ _ := Gate.State.step_move s.gate _
  rw [← hgate] at hmove
  have hids (e : Gate.ConsumerId × Nat) (he : e ∈ s.gate.roster.entries) (hk : e.2 = k) :
      e.1 = k + 1 := by rw [h.ids e he, hk]
  have herased : k ∉ (s.gate.roster.erase (k + 1)).members := by
    intro member
    obtain ⟨e, he, hk⟩ := List.mem_map.mp member
    obtain ⟨hmem, hne⟩ := List.mem_filter.mp he
    exact bne_iff_ne.mp hne (hids e hmem hk)
  generalize (s.act (.gate (.release (k + 1)))).gate = t at hmove ⊢
  generalize (s.gate.step s.accepts (.release (k + 1))).2 = effects at hmove
  cases hmove with
  | refuse _ ignored =>
      intro member
      obtain ⟨e, he, hk⟩ := List.mem_map.mp member
      have hnone := List.lookup_eq_none_iff.mp ignored e he
      rw [hids e he hk] at hnone
      simp at hnone
  | part => exact herased
  | drain => exact herased
  | partLast => exact herased

end Members

end Lifecycle.Relay

namespace Lifecycle.Relay.Scenario

open HasExecutor

/-- Somebody holds the consumer.  `hand` are those that are just being dealt with. -/
def Held (hand : List Consumer) (w : World) (c : Consumer) : Prop :=
  c ∈ hand ∨ (∃ name, (name, c) ∈ w.consumers) ∨
    ∃ id r, w.executor.task? id = some (.reader r) ∧ r.consumer = c

/-- The places at the gate are those of consumers that somebody holds. -/
structure Leased (hand : List Consumer) (w : World) : Prop where
  paired : ∀ c, Held hand w c → c.id = c.inbox + 1
  owned : ∀ k ∈ w.gate.roster.members, ∃ c, Held hand w c ∧ c.inbox = k
  distinct : (w.consumers.map Prod.fst).Nodup

section Leased

variable {hand next : List Consumer} {turn : Option TaskId} {id : TaskId} {v w : World}
  {acts : List Relay.Act} {c : Consumer} {name : String} {p : Task}

theorem Leased.moved (h : Leased hand w) (acts : List Relay.Act)
    (orderly : w.relay.orderly acts = true) (relay : v.relay = w.relay.after acts)
    (nobody : ∀ a ∈ acts, a ≠ .attach)
    (before : ∀ c, Held next v c → Held hand w c)
    (after : ∀ c, Held hand w c → c.inbox ∈ v.gate.roster.members → Held next v c)
    (distinct : (v.consumers.map Prod.fst).Nodup) : Leased next v where
  paired c held := h.paired c (before c held)
  owned k member := by
    have hmember : k ∈ w.gate.roster.members := by
      rw [World.gate, relay] at member
      exact members_after orderly nobody member
    obtain ⟨c, hheld, rfl⟩ := h.owned k hmember
    exact ⟨c, after c hheld member, rfl⟩
  distinct := distinct

theorem Beside.held_iff (h : Beside turn w v) : Held hand v c ↔ Held hand w c := by
  have htask (id : TaskId) (r : Reader) :
      v.executor.task? id = some (.reader r) ↔ w.executor.task? id = some (.reader r) :=
    h.task_iff rfl
  simp only [Held, h.consumers, htask]

theorem Leased.traces (h : Leased hand w) (traces : Traces turn w acts v)
    (nobody : ∀ a ∈ acts, a ≠ .attach) : Leased hand v :=
  h.moved acts traces.orderly traces.relay nobody (fun _ => traces.held_iff.mp)
    (fun _ held _ => traces.held_iff.mpr held) (by rw [traces.consumers]; exact h.distinct)

theorem Leased.same (h : Leased hand w) (relay : v.relay = w.relay)
    (consumers : v.consumers = w.consumers)
    (readers : ∀ id r, v.executor.task? id = some (.reader r) ↔
      w.executor.task? id = some (.reader r)) : Leased hand v := by
  have hheld (c : Consumer) : Held hand v c ↔ Held hand w c := by
    simp only [Held, consumers, readers]
  exact h.moved [] rfl relay nofun (fun c => (hheld c).mp)
    (fun c held _ => (hheld c).mpr held) (by rw [consumers]; exact h.distinct)

theorem Leased.attach (h : Leased hand w) (paired : Paired w.relay)
    (traces : Traces turn w [.attach] (Hosting.attach w).1) :
    Leased ((Hosting.attach w).2 :: hand) (Hosting.attach w).1 where
  paired d held := by
    rcases held with hhand | hother
    · rcases List.mem_cons.mp hhand with rfl | hhand
      · exact paired.nextId
      · exact h.paired d (.inl hhand)
    · exact h.paired d (traces.held_iff.mp (.inr hother) : Held hand w d)
  owned k member := by
    rw [World.gate, traces.relay] at member
    have hadmitted := (State.orderly_cons _ _ _).mp traces.orderly
    rcases members_act hadmitted.1 member with hold | ⟨_, hnew⟩
    · obtain ⟨d, hheld, hd⟩ := h.owned k hold
      rcases traces.held_iff.mpr hheld with hhand | hother
      · exact ⟨d, .inl (List.mem_cons_of_mem _ hhand), hd⟩
      · exact ⟨d, .inr hother, hd⟩
    · exact ⟨_, .inl List.mem_cons_self, hnew.symm⟩
  distinct := by
    rw [traces.consumers]
    exact h.distinct

theorem Leased.forget (h : Leased hand w) (found : w.consumers.lookup name = some c) :
    Leased (c :: hand) (w.forgetConsumer name) := by
  obtain ⟨earlier, later, hsplit, hfirst⟩ := List.lookup_eq_some_iff.mp found
  have hmem : (name, c) ∈ w.consumers := by
    rw [hsplit]
    exact List.mem_append_right _ List.mem_cons_self
  have honly (d : Consumer) (hd : (name, d) ∈ w.consumers) : d = c := by
    have hdistinct := h.distinct
    rw [hsplit, List.map_append, List.map_cons, List.nodup_append, List.nodup_cons] at hdistinct
    rw [hsplit] at hd
    rcases List.mem_append.mp hd with hearly | hlate
    · exact absurd rfl (bne_iff_ne.mp (hfirst _ hearly))
    · rcases List.mem_cons.mp hlate with heq | hlate
      · exact congrArg Prod.snd heq
      · exact absurd (List.mem_map_of_mem hlate) hdistinct.2.1.1
  refine h.moved [] rfl rfl nofun (fun d held => ?_) (fun d held _ => ?_)
    ((List.filter_sublist.map _).nodup h.distinct)
  · rcases held with hhand | ⟨n, hn⟩ | hreads
    · rcases List.mem_cons.mp hhand with rfl | hhand
      · exact .inr (.inl ⟨name, hmem⟩)
      · exact .inl hhand
    · exact .inr (.inl ⟨n, (List.mem_filter.mp hn).1⟩)
    · exact .inr (.inr hreads)
  · rcases held with hhand | ⟨n, hn⟩ | hreads
    · exact .inl (List.mem_cons_of_mem _ hhand)
    · by_cases hname : n = name
      · subst hname
        rw [honly d hn]
        exact .inl List.mem_cons_self
      · exact .inr (.inl ⟨n, List.mem_filter.mpr ⟨hn, bne_iff_ne.mpr hname⟩⟩)
    · exact .inr (.inr hreads)

theorem Leased.keep (h : Leased (c :: hand) w) (new : name ∉ w.consumers.map Prod.fst) :
    Leased hand { w with consumers := w.consumers ++ [(name, c)] } := by
  refine h.moved [] rfl rfl nofun (fun d held => ?_) (fun d held _ => ?_) ?_
  · rcases held with hhand | ⟨n, hn⟩ | hreads
    · exact .inl (List.mem_cons_of_mem _ hhand)
    · rcases List.mem_append.mp hn with hold | hnew
      · exact .inr (.inl ⟨n, hold⟩)
      · cases List.mem_singleton.mp hnew
        exact .inl List.mem_cons_self
    · exact .inr (.inr hreads)
  · rcases held with hhand | ⟨n, hn⟩ | hreads
    · rcases List.mem_cons.mp hhand with rfl | hhand
      · exact .inr (.inl ⟨name, List.mem_append_right _ (List.mem_singleton_self _)⟩)
      · exact .inl hhand
    · exact .inr (.inl ⟨n, List.mem_append_left _ hn⟩)
    · exact .inr (.inr hreads)
  · rw [List.map_append, List.nodup_append]
    refine ⟨h.distinct, List.pairwise_singleton _ _, ?_⟩
    rintro n hn m hm rfl
    cases (List.mem_singleton.mp hm : n = name)
    exact new hn

theorem Leased.lend {r : Reader} (h : Leased (r.consumer :: hand) w)
    (numbered : w.executor.Numbered) : Leased hand (HasExecutor.spawn w (.reader r)) := by
  have hnew : (w.executor.spawn (.reader r)).task? w.executor.nextTask = some (.reader r) :=
    Executor.task?_spawn numbered _
  refine h.moved [] rfl rfl nofun (fun d held => ?_) (fun d held _ => ?_) h.distinct
  · rcases held with hhand | hnamed | ⟨id, s, hs, rfl⟩
    · exact .inl (List.mem_cons_of_mem _ hhand)
    · exact .inr (.inl hnamed)
    · rcases Executor.task?_of_spawn numbered hs with ⟨_, hnow⟩ | hold
      · cases hnow
        exact .inl List.mem_cons_self
      · exact .inr (.inr ⟨id, s, hold, rfl⟩)
  · rcases held with hhand | hnamed | ⟨id, s, hs, rfl⟩
    · rcases List.mem_cons.mp hhand with rfl | hhand
      · exact .inr (.inr ⟨_, r, hnew, rfl⟩)
      · exact .inl hhand
    · exact .inr (.inl hnamed)
    · have hold : id ≠ w.executor.nextTask :=
        Nat.ne_of_lt (numbered.tasks id (by rw [hs]; rfl))
      exact .inr (.inr ⟨id, s, (Executor.task?_spawn_ne _ hold).trans hs, rfl⟩)

theorem Leased.spawn (h : Leased hand w) (numbered : w.executor.Numbered)
    (other : ∀ r, p ≠ .reader r) : Leased hand (HasExecutor.spawn w p) := by
  refine h.same rfl rfl fun id r => ⟨fun task => ?_, fun task => ?_⟩
  · exact (Executor.task?_of_spawn numbered task).resolve_left fun hnew => other r hnew.2.symm
  · have hold := Nat.ne_of_lt (numbered.tasks id (by rw [task]; rfl))
    exact (Executor.task?_spawn_ne p hold).trans task

theorem Leased.letGo (h : Leased (c :: hand) w) (gone : c.inbox ∉ w.gate.roster.members) :
    Leased hand w := by
  refine h.moved [] rfl rfl nofun
    (fun d held => held.imp_left (List.mem_cons_of_mem _)) (fun d held member => ?_) h.distinct
  rcases held with hhand | hother
  · rcases List.mem_cons.mp hhand with rfl | hhand
    · exact absurd member gone
    · exact .inl hhand
  · exact .inr hother

theorem not_mem_abandon (paired : Paired w.relay) (hc : c.id = c.inbox + 1) :
    c.inbox ∉ (Hosting.abandon w c).gate.roster.members := by
  have hkept : Paired (w.relay.act (.abandon c.inbox)) :=
    paired.same rfl (List.length_modify _ _ _) fun _ =>
      State.isOpen_modifyInbox c.inbox fun _ => rfl
  have hgone := hkept.not_mem_release c.inbox
  rw [← hc] at hgone
  have hrelay := relay_input { w with relay := w.relay.act (.abandon c.inbox) } (.release c.id)
  rw [World.gate, show (Hosting.abandon w c).relay = _ from hrelay]
  exact hgone

theorem Leased.leave {rest : Rest Signal Task} (h : Leased hand w)
    (ordered : w.executor.Ordered (some id)) (task : w.executor.task? id = some p)
    (same : ∀ s, rest.program? = some (.reader s) → ∃ r, p = .reader r ∧ r.consumer = s.consumer)
    (done : ∀ r, p = .reader r → r.consumer.inbox ∈ w.gate.roster.members →
      ∃ s, rest.program? = some (.reader s) ∧ s.consumer = r.consumer) :
    Leased hand (Hosted.leave w id rest) := by
  have hkeeps := Executor.keeps_left ordered.turn rest
  have hleft := Executor.task?_left (by rw [task]; rfl : (w.executor.task? id).isSome = true) rest
  have hother {k : TaskId} (hk : k ≠ id) :
      (w.executor.left id rest).task? k = w.executor.task? k :=
    hkeeps.task k fun heq => hk (Option.some.inj heq).symm
  rw [leave_eq]
  refine h.moved [] rfl rfl nofun (fun d held => ?_) (fun d held member => ?_) h.distinct
  · refine held.imp_right (Or.imp_right ?_)
    rintro ⟨k, s, hs, rfl⟩
    by_cases hk : k = id
    · subst hk
      obtain ⟨r, rfl, hr⟩ := same s (hleft.symm.trans hs)
      exact ⟨k, r, task, hr⟩
    · exact ⟨k, s, (hother hk).symm.trans hs, rfl⟩
  · refine held.imp_right (Or.imp_right ?_)
    rintro ⟨k, r, hr, rfl⟩
    by_cases hk : k = id
    · subst hk
      obtain ⟨s, hs, hsame⟩ := done r (Option.some.inj (task.symm.trans hr)) member
      exact ⟨k, s, hleft.trans hs, hsame⟩
    · exact ⟨k, r, (hother hk).trans hr, rfl⟩

theorem Leased.isEmpty (h : Leased [] w) (free : Gate.Hosting.isHeld w = false) :
    w.gate.roster.isEmpty = true := by
  have hfree : (w.owned || w.clones != 0 || !w.consumers.isEmpty ||
      w.executor.tasks.any fun t => World.reads t.2) = false := free
  simp only [Bool.or_eq_false_iff, Bool.not_eq_false', List.isEmpty_iff] at hfree
  obtain ⟨⟨_, hnone⟩, hidle⟩ := hfree
  rw [Gate.Roster.isEmpty_iff, List.eq_nil_iff_forall_not_mem]
  intro k member
  obtain ⟨c, held, _⟩ := h.owned k member
  rcases held with hhand | ⟨name, hnamed⟩ | ⟨id, r, hr, _⟩
  · cases hhand
  · rw [hnone] at hnamed
    cases hnamed
  · obtain ⟨_, _, hsplit, _⟩ := List.lookup_eq_some_iff.mp hr
    have hmem : (id, Task.reader r) ∈ w.executor.tasks := by
      rw [hsplit]
      exact List.mem_append_right _ List.mem_cons_self
    have hreads := List.any_eq_false.mp hidle _ hmem
    exact hreads rfl

end Leased

end Lifecycle.Relay.Scenario
