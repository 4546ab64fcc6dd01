import MetherCEX.Lib.Run
import MetherCEX.Engine.Placement

/-!
# Polling the match events

A placement matches under the lock of its market, takes its ids from the counter, and then stores
its events one at a time; placements of different markets interleave between these steps.
-/

namespace MetherCEX

open Run List SortedMap Engine

/-- A placement in flight: it has matched, or it is storing its events. -/
inductive PlaceJob
  | matched (events : List MatchEvent)
  | inserting (pairs : List (ℕ × MatchEvent))

/-- How the poller moves its cursor: to the last id of the answer, or to the
largest id of the events in it. -/
inductive CursorRule
  | lastId
  | maxId
  deriving DecidableEq

def CursorRule.next (afterId : ℕ) (answer : List (ℕ × MatchEvent) × ℕ) : CursorRule → ℕ
  | .lastId => answer.2
  | .maxId => answer.1.foldl (fun maxId p => max maxId p.1) afterId

structure PollerState where
  engine : Engine
  jobs : ℕ → Option PlaceJob
  allocated : List (ℕ × MatchEvent)
  afterId : ℕ
  received : List (ℕ × MatchEvent)

inductive PollerAction
  | matchOrder (job : ℕ) (now : ℕ → ℕ) (o : Order)
  | allocate (job : ℕ)
  | insertNext (job : ℕ)
  | poll (rule : CursorRule)

namespace PollerState

def init : PollerState := ⟨Engine.new, fun _ => none, [], 0, []⟩

def step (s : PollerState) : PollerAction → PollerState
  | .matchOrder job now o =>
    match s.jobs job with
    | some _ => s
    | none =>
      { s with
        engine := s.engine.commitBook o.market (s.engine.trialMatch now o).2
        jobs := Function.update s.jobs job
          (some (.matched (s.engine.trialMatch now o).1)) }
  | .allocate job =>
    match s.jobs job with
    | some (.matched events) =>
      let pairs := numberEvents s.engine.nextEventId events
      { s with
        engine := if 0 < events.length then s.engine.fetchAdd events.length else s.engine
        jobs := Function.update s.jobs job (some (.inserting pairs))
        allocated := s.allocated ++ pairs }
    | _ => s
  | .insertNext job =>
    match s.jobs job with
    | some (.inserting (p :: pairs)) =>
      { s with
        engine := s.engine.insertMatchEventSorted p.1 p.2
        jobs := Function.update s.jobs job (some (.inserting pairs)) }
    | _ => s
  | .poll rule =>
    let answer := s.engine.getMatchEventsAfter s.afterId
    { s with
      afterId := rule.next s.afterId answer
      received := s.received ++ answer.1 }

def SkipsNothing (s : PollerState) : Prop :=
  ∀ p ∈ s.allocated, p.1 ≤ s.afterId → p ∈ s.received
  deriving Decidable

def lastVisible (s : PollerState) : ℕ := (s.engine.getMatchEventsAfter s.afterId).2

def idsNeeded (s : PollerState) (job : ℕ) : ℕ :=
  match s.jobs job with
  | some (.matched events) => events.length
  | _ => 0

def Bounded (s : PollerState) : PollerAction → Prop
  | .allocate job => s.engine.nextEventId + s.idsNeeded job < usizeBound
  | .insertNext _ => s.engine.matchEvents.entries.length < maxEvents
  | _ => True

instance (s : PollerState) (a) : Decidable (s.Bounded a) := by
  cases a <;> dsimp only [Bounded] <;> infer_instance

/-- A poll finds no hole: every id up to the last visible one is visible. -/
def NoHole (s : PollerState) : PollerAction → Prop
  | .poll _ => ∀ p ∈ s.allocated, p.1 ≤ s.lastVisible → p ∈ s.engine.matchEvents.entries
  | _ => True

instance (s : PollerState) : ∀ a, Decidable (s.NoHole a)
  | .poll _ => inferInstanceAs (Decidable (∀ p ∈ s.allocated, _ → _))
  | .matchOrder _ _ _ | .allocate _ | .insertNext _ => .isTrue trivial

end PollerState

section Visible

variable {e : Engine}

theorem Engine.le_lastId {p : ℕ × MatchEvent} (afterId : ℕ)
    (hp : p ∈ e.matchEvents.entries) : p.1 ≤ (e.getMatchEventsAfter afterId).2 := by
  obtain ⟨pre, q, hq⟩ : ∃ pre q, e.matchEvents.entries = pre ++ [q] := by
    rcases eq_nil_or_concat' e.matchEvents.entries with hnil | h
    · rw [hnil] at hp
      cases hp
    · exact h
  have hlast : (e.getMatchEventsAfter afterId).2 = q.1 := by
    simp [getMatchEventsAfter, hq]
  have hsorted := e.matchEvents.sorted
  rw [hq, pairwise_append] at hsorted
  rw [hlast]
  rw [hq] at hp
  rcases mem_append.mp hp with hp | hp
  · exact (hsorted.2.2 p hp q (mem_singleton.mpr rfl)).le
  · rw [mem_singleton.mp hp]

theorem Engine.lastId_mem (e : Engine) (afterId : ℕ) : (e.getMatchEventsAfter afterId).2 = 0 ∨
    ∃ p ∈ e.matchEvents.entries, p.1 = (e.getMatchEventsAfter afterId).2 := by
  rcases eq_nil_or_concat' e.matchEvents.entries with hnil | ⟨pre, q, hq⟩
  · left
    simp [getMatchEventsAfter, hnil]
  · right
    refine ⟨q, by simp [hq], ?_⟩
    simp [getMatchEventsAfter, hq]

theorem Engine.mem_getMatchEventsAfter {p : ℕ × MatchEvent} {afterId : ℕ} :
    p ∈ (e.getMatchEventsAfter afterId).1 ↔ p ∈ e.matchEvents.entries ∧ afterId < p.1 := by
  simp [getMatchEventsAfter]

theorem foldl_max_ge (l : List (ℕ × MatchEvent)) (n : ℕ) :
    n ≤ l.foldl (fun m p => max m p.1) n ∧ ∀ p ∈ l, p.1 ≤ l.foldl (fun m p => max m p.1) n := by
  induction l generalizing n with
  | nil => simp
  | cons q l ih =>
    obtain ⟨hn, hl⟩ := ih (max n q.1)
    refine ⟨(le_max_left _ _).trans hn, fun p hp => ?_⟩
    rcases mem_cons.mp hp with rfl | hp
    · exact (le_max_right _ _).trans hn
    · exact hl p hp

theorem foldl_max_le {l : List (ℕ × MatchEvent)} {n b : ℕ} (hn : n ≤ b)
    (hl : ∀ p ∈ l, p.1 ≤ b) : l.foldl (fun m p => max m p.1) n ≤ b := by
  induction l generalizing n with
  | nil => exact hn
  | cons q l ih =>
    exact ih (max_le hn (hl q mem_cons_self)) fun p hp =>
      hl p (mem_cons_of_mem q hp)

theorem CursorRule.next_bounds (rule : CursorRule) (e : Engine) (afterId : ℕ) :
    (e.getMatchEventsAfter afterId).2 ≤ rule.next afterId (e.getMatchEventsAfter afterId) ∧
    rule.next afterId (e.getMatchEventsAfter afterId) ≤
    max afterId (e.getMatchEventsAfter afterId).2 := by
  cases rule with
  | lastId => exact ⟨le_rfl, le_max_right _ _⟩
  | maxId =>
    obtain ⟨hafter, hmem⟩ := foldl_max_ge (e.getMatchEventsAfter afterId).1 afterId
    refine ⟨?_, foldl_max_le (le_max_left _ _) fun p hp => ?_⟩
    · rcases le_or_gt (e.getMatchEventsAfter afterId).2 afterId with hle | hlt
      · exact hle.trans hafter
      · rcases e.lastId_mem afterId with h0 | ⟨p, hp, hplast⟩
        · omega
        · rw [← hplast] at hlt ⊢
          exact hmem p (mem_getMatchEventsAfter.mpr ⟨hp, hlt⟩)
    · exact le_max_of_le_right
        (le_lastId afterId (mem_getMatchEventsAfter.mp hp).1)

theorem Engine.entries_insertMatchEventSorted (p : ℕ × MatchEvent)
    (h : e.matchEvents.entries.length < maxEvents) : (∀ q ∈ e.matchEvents.entries,
    q ∈ (e.insertMatchEventSorted p.1 p.2).matchEvents.entries) ∧ ∀ q ∈
    (e.insertMatchEventSorted p.1 p.2).matchEvents.entries, q = p ∨ q ∈ e.matchEvents.entries := by
  unfold insertMatchEventSorted
  cases hget : e.matchEvents.get? p.1 with
  | some ev => exact ⟨fun q hq => hq, fun q hq => .inr hq⟩
  | none =>
    have hnot := get?_eq_none.mp hget
    have hlen : (e.matchEvents.insert p.1 p.2).entries.length - maxEvents = 0 := by
      have hperm := (e.matchEvents.insert_perm p.1 p.2).length_eq
      rw [remove_of_not_mem hnot, length_cons] at hperm
      omega
    simp only [hlen, drop_zero]
    refine ⟨fun q hq => ?_, fun q hq => ?_⟩
    · refine mem_insert.mpr (.inr ⟨hq, fun heq => hnot ?_⟩)
      rw [← heq]
      exact mem_map_of_mem hq
    · rcases mem_insert.mp hq with hq | hq
      · exact .inl hq
      · exact .inr hq.1

end Visible

/-- What is visible or in flight has an id below the counter, and the poller has
received visible events only. -/
structure PollerInvariant (s : PollerState) : Prop where
  ids_lt : ∀ p ∈ s.allocated, p.1 < s.engine.nextEventId
  visible : ∀ p ∈ s.engine.matchEvents.entries, p ∈ s.allocated
  inserting : ∀ job pairs, s.jobs job = some (.inserting pairs) → ∀ p ∈ pairs,
    p ∈ s.allocated
  received : ∀ p ∈ s.received, p ∈ s.engine.matchEvents.entries
  after_lt : s.afterId < s.engine.nextEventId

namespace PollerInvariant

variable {s : PollerState}

theorem init : PollerInvariant PollerState.init := by
  refine ⟨?_, ?_, ?_, ?_, Nat.one_pos⟩
  · exact forall_mem_nil _
  · exact forall_mem_nil _
  · exact fun job pairs h => by cases h
  · exact forall_mem_nil _

variable (h : PollerInvariant s)

include h

theorem matchOrder (job : ℕ) (now : ℕ → ℕ) (o : Order) :
    PollerInvariant (s.step (.matchOrder job now o)) := by
  simp only [PollerState.step]
  split
  · exact h
  · refine ⟨h.ids_lt, h.visible, fun j pairs hj => ?_, h.received, h.after_lt⟩
    rcases update_eq_some hj with ⟨-, hv⟩ | ⟨-, hj⟩
    · cases hv
    · exact h.inserting j pairs hj

theorem allocate {job : ℕ} (hb : s.Bounded (.allocate job)) :
    PollerInvariant (s.step (.allocate job)) := by
  simp only [PollerState.step]
  split
  · rename_i events hjob
    have hbound : s.engine.nextEventId + events.length < usizeBound := by
      simpa only [PollerState.Bounded, PollerState.idsNeeded, hjob] using hb
    have hnext : (if 0 < events.length then s.engine.fetchAdd events.length
        else s.engine).nextEventId = s.engine.nextEventId + events.length := by
      split_ifs with hpos
      · exact Nat.mod_eq_of_lt hbound
      · omega
    have hentries : (if 0 < events.length then s.engine.fetchAdd events.length
        else s.engine).matchEvents = s.engine.matchEvents := by
      split_ifs <;> rfl
    refine ⟨fun p hp => ?_, fun p hp => ?_, fun j pairs hj p hp => ?_, fun p hp => ?_, ?_⟩
    · rw [hnext]
      rcases mem_append.mp hp with hp | hp
      · exact (h.ids_lt p hp).trans_le (Nat.le_add_right _ _)
      · exact (mem_numberEvents hp hbound).2
    · rw [hentries] at hp
      exact mem_append_left _ (h.visible p hp)
    · rcases update_eq_some hj with ⟨-, hv⟩ | ⟨-, hj⟩
      · cases hv
        exact mem_append_right _ hp
      · exact mem_append_left _ (h.inserting j pairs hj p hp)
    · rw [hentries]
      exact h.received p hp
    · rw [hnext]
      exact h.after_lt.trans_le (Nat.le_add_right _ _)
  · exact h

theorem insertNext {job : ℕ} (hb : s.Bounded (.insertNext job)) :
    PollerInvariant (s.step (.insertNext job)) := by
  simp only [PollerState.step]
  split
  · rename_i p pairs hjob
    obtain ⟨hkeep, hadd⟩ := entries_insertMatchEventSorted (e := s.engine) p hb
    have hnext : (s.engine.insertMatchEventSorted p.1 p.2).nextEventId =
        s.engine.nextEventId := by
      unfold insertMatchEventSorted
      split <;> rfl
    refine ⟨fun q hq => ?_, fun q hq => ?_, fun j qs hj q hq => ?_, fun q hq => ?_, ?_⟩
    · rw [hnext]
      exact h.ids_lt q hq
    · rcases hadd q hq with rfl | hq
      · exact h.inserting job _ hjob q mem_cons_self
      · exact h.visible q hq
    · rcases update_eq_some hj with ⟨-, hv⟩ | ⟨-, hj⟩
      · cases hv
        exact h.inserting job _ hjob q (mem_cons_of_mem p hq)
      · exact h.inserting j qs hj q hq
    · exact hkeep q (h.received q hq)
    · rw [hnext]
      exact h.after_lt
  · exact h

theorem poll (rule : CursorRule) : PollerInvariant (s.step (.poll rule)) := by
  refine ⟨h.ids_lt, h.visible, h.inserting, fun p hp => ?_, ?_⟩
  · rcases mem_append.mp hp with hp | hp
    · exact h.received p hp
    · exact (mem_getMatchEventsAfter.mp hp).1
  · refine (rule.next_bounds s.engine s.afterId).2.trans_lt (max_lt h.after_lt ?_)
    rcases s.engine.lastId_mem s.afterId with h0 | ⟨p, hp, hplast⟩
    · rw [h0]
      exact (Nat.zero_le _).trans_lt h.after_lt
    · rw [← hplast]
      exact h.ids_lt p (h.visible p hp)

theorem step {a : PollerAction} (hb : s.Bounded a) : PollerInvariant (s.step a) := by
  cases a with
  | matchOrder job now o => exact h.matchOrder job now o
  | allocate job => exact h.allocate hb
  | insertNext job => exact h.insertNext hb
  | poll rule => exact h.poll rule

theorem skipsNothing_of_not_poll (hs : s.SkipsNothing) {a : PollerAction} (hb : s.Bounded a)
    (ha : ∀ rule, a ≠ .poll rule) : (s.step a).SkipsNothing := by
  cases a with
  | matchOrder job now o =>
    simp only [PollerState.step]
    split
    · exact hs
    · exact hs
  | allocate job =>
    simp only [PollerState.step]
    split
    · rename_i events hjob
      intro p hp hle
      rcases mem_append.mp hp with hp | hp
      · exact hs p hp hle
      · have hbound : s.engine.nextEventId + events.length < usizeBound := by
          simpa only [PollerState.Bounded, PollerState.idsNeeded, hjob] using hb
        have hlow := (mem_numberEvents hp hbound).1
        have hafter := h.after_lt
        simp only at hle
        omega
    · exact hs
  | insertNext job =>
    simp only [PollerState.step]
    split
    · exact hs
    · exact hs
  | poll rule => exact absurd rfl (ha rule)

/-- After a poll nothing is skipped exactly when the poll found no hole, if nothing
was skipped before. -/
theorem skipsNothing_poll_iff (hs : s.SkipsNothing) (rule : CursorRule) :
    (s.step (.poll rule)).SkipsNothing ↔ s.NoHole (.poll rule) := by
  obtain ⟨hge, hle⟩ := rule.next_bounds s.engine s.afterId
  constructor
  · intro hskip p hp hlast
    rcases mem_append.mp (hskip p hp (hlast.trans hge)) with hmem | hmem
    · exact h.received p hmem
    · exact (mem_getMatchEventsAfter.mp hmem).1
  · intro hhole p hp hcursor
    refine mem_append.mpr ?_
    rcases le_or_gt p.1 s.afterId with hold | hnew
    · exact .inl (hs p hp hold)
    · have hlast : p.1 ≤ s.lastVisible := by
        rcases le_max_iff.mp (hcursor.trans hle) with hcur | hcur
        · exact absurd hcur (not_le.mpr hnew)
        · exact hcur
      exact .inr (mem_getMatchEventsAfter.mpr ⟨hhole p hp hlast, hnew⟩)

end PollerInvariant

theorem pollerInvariant_run {acts : List PollerAction} (hb : Along PollerState.step
    PollerState.Bounded .init acts) : PollerInvariant (acts.foldl PollerState.step .init) :=
  hb.invariant PollerInvariant.init fun _ _ h hb => h.step hb

/-- As long as the counter does not wrap and the buffer has room, the poller skips
no event at any point of a run exactly when no poll of the run finds a hole. -/
theorem poller_skips_nothing_iff (acts : List PollerAction) (hb : Along PollerState.step
    PollerState.Bounded .init acts) : (∀ pre post, acts = pre ++ post → (pre.foldl PollerState.step
    .init).SkipsNothing) ↔ Along PollerState.step PollerState.NoHole .init acts := by
  induction acts using List.reverseRecOn with
  | nil =>
    refine ⟨fun _ => trivial, fun _ pre post hacts => ?_⟩
    obtain ⟨rfl, rfl⟩ := nil_eq_append_iff.mp hacts
    exact nofun
  | append_singleton acts a ih =>
    obtain ⟨hinit, hlast⟩ := along_concat.mp hb
    have hinv := pollerInvariant_run hinit
    -- the last step keeps the property exactly when it meets the condition
    have hstep : (acts.foldl PollerState.step .init).SkipsNothing →
        (((acts ++ [a]).foldl PollerState.step .init).SkipsNothing ↔
          (acts.foldl PollerState.step .init).NoHole a) := by
      intro hs
      rw [foldl_append, foldl_cons, foldl_nil]
      cases a with
      | poll rule => exact hinv.skipsNothing_poll_iff hs rule
      | matchOrder job now o | allocate job | insertNext job =>
        exact iff_of_true (hinv.skipsNothing_of_not_poll hs hlast (by simp)) trivial
    rw [along_concat, ← ih hinit]
    constructor
    · intro hall
      have hpre : ∀ pre post, acts = pre ++ post →
          (pre.foldl PollerState.step .init).SkipsNothing := fun pre post hacts =>
        hall pre (post ++ [a]) (by rw [hacts, append_assoc])
      exact ⟨hpre, (hstep (hpre acts [] (append_nil _).symm)).mp
        (hall (acts ++ [a]) [] (append_nil _).symm)⟩
    · rintro ⟨hpre, hhole⟩ pre post hacts
      rcases eq_nil_or_concat' post with rfl | ⟨post', b, rfl⟩
      · rw [append_nil] at hacts
        rw [← hacts]
        exact (hstep (hpre acts [] (append_nil _).symm)).mpr hhole
      · rw [← append_assoc] at hacts
        exact hpre pre post' (append_inj' hacts rfl).1

def twoMarkets : List PollerAction :=
  [.matchOrder 1 id ⟨1, 10, "BTC_USDT", .sell, .limit, some 100, 1, 1, 5⟩, .allocate 1,
    .matchOrder 2 id ⟨2, 10, "ETH_USDT", .sell, .limit, some 100, 1, 1, 5⟩, .allocate 2,
    .matchOrder 3 id ⟨3, 11, "BTC_USDT", .buy, .limit, some 100, 1, 1, 6⟩,
    .matchOrder 4 id ⟨4, 11, "ETH_USDT", .buy, .limit, some 100, 1, 1, 6⟩]

def orderedPolls : List PollerAction :=
  twoMarkets ++ [.allocate 3, .allocate 4, .insertNext 3, .poll .lastId, .insertNext 4,
    .poll .maxId]

theorem orderedPolls_skip_nothing : Along PollerState.step PollerState.Bounded .init orderedPolls ∧
    (orderedPolls.foldl PollerState.step .init).received.map Prod.fst = [1, 2] ∧
    ∀ pre post, orderedPolls = pre ++ post → (pre.foldl PollerState.step .init).SkipsNothing :=
  have hb : Along PollerState.step PollerState.Bounded .init orderedPolls := by
    decide +kernel
  ⟨hb, by decide +kernel, (poller_skips_nothing_iff orderedPolls hb).mpr (by decide +kernel)⟩

def overtakenPoll : List PollerAction :=
  twoMarkets ++ [.allocate 3, .allocate 4, .insertNext 4, .poll .lastId]

/-- The cursor is then at 2, the event 1 was not received, and no later poll
returns it. -/
theorem overtaken_event_is_skipped : Along PollerState.step PollerState.Bounded .init
    overtakenPoll ∧ (overtakenPoll.foldl PollerState.step .init).afterId = 2 ∧ (overtakenPoll.foldl
    PollerState.step .init).allocated.map Prod.fst = [1, 2] ∧ (overtakenPoll.foldl PollerState.step
    .init).received.map Prod.fst = [2] ∧ ¬ (overtakenPoll.foldl PollerState.step .init).SkipsNothing
    ∧ ((overtakenPoll ++ [PollerAction.insertNext 3,
    .poll .lastId, .poll .maxId]).foldl PollerState.step .init).received.map Prod.fst = [2] := by
  decide +kernel

theorem Engine.lastId_le_insertMatchEventSorted (e : Engine) (p : ℕ × MatchEvent) (afterId : ℕ) :
    (e.getMatchEventsAfter afterId).2 ≤
      ((e.insertMatchEventSorted p.1 p.2).getMatchEventsAfter afterId).2 := by
  rcases e.lastId_mem afterId with h0 | ⟨q, hq, hlast⟩
  · exact h0.trans_le (Nat.zero_le _)
  rw [← hlast, insertMatchEventSorted]
  cases hget : e.matchEvents.get? p.1 with
  | some ev => exact le_lastId afterId hq
  | none =>
    have hmem : q ∈ (e.matchEvents.insert p.1 p.2).entries := by
      refine mem_insert.mpr (.inr ⟨hq, fun heq => get?_eq_none.mp hget ?_⟩)
      exact heq ▸ mem_map_of_mem hq
    have hle := le_lastId (e := { e with matchEvents := e.matchEvents.insert p.1 p.2 }) afterId hmem
    -- the oldest events are dropped, and the last one stays
    have hroom := (Nat.sub_lt (length_pos_of_mem hmem) (show 0 < maxEvents by decide)).not_ge
    simpa [getMatchEventsAfter, getLast?_drop, hroom, SortedMap.drop] using hle

/-- What a poller keeps, whatever the counter and the buffer do. -/
structure Ascending (s : PollerState) : Prop where
  after_le : s.afterId ≤ s.lastVisible
  received_le : ∀ p ∈ s.received, p.1 ≤ s.afterId
  sorted : s.received.Pairwise fun p q => p.1 < q.1

namespace Ascending

variable {s : PollerState} (h : Ascending s)

include h

theorem poll (rule : CursorRule) : Ascending (s.step (.poll rule)) := by
  obtain ⟨hge, hle⟩ := rule.next_bounds s.engine s.afterId
  have hafter := h.after_le.trans hge
  refine ⟨hle.trans (max_le h.after_le le_rfl), fun p hp => ?_, ?_⟩
  · rcases mem_append.mp hp with hp | hp
    · exact (h.received_le p hp).trans hafter
    · exact (le_lastId _ (mem_getMatchEventsAfter.mp hp).1).trans hge
  · refine pairwise_append.mpr ⟨h.sorted, s.engine.matchEvents.sorted.filter _, fun p hp q hq => ?_⟩
    exact (h.received_le p hp).trans_lt (mem_getMatchEventsAfter.mp hq).2

theorem step (a : PollerAction) : Ascending (s.step a) := by
  cases a with
  | poll rule => exact h.poll rule
  | matchOrder job now o =>
    simp only [PollerState.step]
    split <;> exact ⟨h.after_le, h.received_le, h.sorted⟩
  | allocate job =>
    simp only [PollerState.step]
    split
    · refine ⟨h.after_le.trans_eq ?_, h.received_le, h.sorted⟩
      simp only [PollerState.lastVisible]
      split_ifs <;> rfl
    · exact h
  | insertNext job =>
    simp only [PollerState.step]
    split
    · exact ⟨h.after_le.trans (s.engine.lastId_le_insertMatchEventSorted _ _), h.received_le,
        h.sorted⟩
    · exact h

end Ascending

/-- In every interleaving, also when the counter wraps and the buffer drops events, the poller
receives events in ascending order of their ids, so none twice, and its cursor never goes back. -/
theorem poller_receives_ascending (acts : List PollerAction) (rule : CursorRule) :
    let s := acts.foldl PollerState.step .init
    (s.received.map Prod.fst).Pairwise (· < ·) ∧ s.afterId ≤ (s.step (.poll rule)).afterId := by
  have h : Ascending (acts.foldl PollerState.step .init) :=
    foldlRecOn acts _ ⟨le_rfl, nofun, .nil⟩ fun _ hs a _ => hs.step a
  exact ⟨pairwise_map.mpr h.sorted, h.after_le.trans (rule.next_bounds _ _).1⟩

end MetherCEX
