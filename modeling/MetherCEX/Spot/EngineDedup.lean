import MetherCEX.Lib.SeenQueue

/-!
# The events of the engine are applied once

A process applies an event of the engine to its book in memory when `consumeEngineEventOnce` says
so.
-/

namespace MetherCEX

open List

/-- What a call meets: Redis turned off, a command that fails (it may have been carried out
nevertheless), or one that is answered. -/
inductive RedisMode
  | disabled
  | failing (stored : Bool)
  | available
  deriving DecidableEq

structure EngineEventCall where
  matchEngineId : String
  eventId : ℕ
  redis : RedisMode
  deriving DecidableEq

namespace EngineEventCall

def mid (c : EngineEventCall) : String :=
  if c.matchEngineId = "" then "default" else c.matchEngineId

def pair (c : EngineEventCall) : String × ℕ := (c.mid, c.eventId)

def isLocal (c : EngineEventCall) : Bool := c.redis != .available

end EngineEventCall

structure EngineDedup where
  redis : Finset (String × ℕ)
  localSeen : SeenQueue ℕ

namespace EngineDedup

def localMax : ℕ := 100000

def init : EngineDedup := ⟨∅, .empty⟩

def consumeLocally (s : EngineDedup) (eventId : ℕ) : Bool × EngineDedup :=
  let r := s.localSeen.consume localMax eventId
  (r.1, { s with localSeen := r.2 })

def consumeEngineEventOnce (s : EngineDedup) (c : EngineEventCall) : Bool × EngineDedup :=
  match c.redis with
  | .disabled => s.consumeLocally c.eventId
  | .failing stored =>
    { s with redis := if stored then insert c.pair s.redis else s.redis }.consumeLocally c.eventId
  | .available =>
    if c.pair ∈ s.redis then (false, s) else (true, { s with redis := insert c.pair s.redis })

def after (calls : List EngineEventCall) : EngineDedup :=
  calls.foldl (fun s c => (s.consumeEngineEventOnce c).2) init

def localIds (calls : List EngineEventCall) : Finset ℕ :=
  ((calls.filter EngineEventCall.isLocal).map EngineEventCall.eventId).toFinset

def pairs (calls : List EngineEventCall) : Finset (String × ℕ) :=
  (calls.map EngineEventCall.pair).toFinset

theorem after_concat (calls : List EngineEventCall) (c : EngineEventCall) :
    after (calls ++ [c]) = ((after calls).consumeEngineEventOnce c).2 := by
  simp [after]

theorem pairs_concat (calls : List EngineEventCall) (c : EngineEventCall) :
    pairs (calls ++ [c]) = insert c.pair (pairs calls) := by
  ext p
  simp [pairs]

theorem localIds_concat (calls : List EngineEventCall) (c : EngineEventCall) : localIds
    (calls ++ [c]) = if c.isLocal then insert c.eventId (localIds calls) else localIds calls := by
  ext n
  by_cases hc : c.isLocal = true
  · simp [localIds, hc]
  · simp [localIds, hc]

theorem card_localIds_le (calls : List EngineEventCall) :
    (localIds calls).card ≤ (pairs calls).card := by
  have himage : localIds calls ⊆ (pairs calls).image Prod.snd := by
    intro n hn
    obtain ⟨c, hc, rfl⟩ := mem_map.mp (mem_toFinset.mp hn)
    have hpair : c.pair ∈ pairs calls :=
      mem_toFinset.mpr (mem_map_of_mem (mem_of_mem_filter hc))
    exact Finset.mem_image_of_mem Prod.snd hpair
  exact (Finset.card_le_card himage).trans Finset.card_image_le

/-- What the state knows of the calls: Redis has no other keys, and the memory has the
numbers it was asked for. -/
structure Knows (s : EngineDedup) (calls : List EngineEventCall) : Prop where
  redis_subset : s.redis ⊆ pairs calls
  remembers : s.localSeen.Remembers (localIds calls)

theorem knows_after (calls : List EngineEventCall) (hmax : (pairs calls).card ≤ localMax) :
    (after calls).Knows calls := by
  induction calls using List.reverseRecOn with
  | nil => exact ⟨Finset.empty_subset _, SeenQueue.remembers_empty⟩
  | append_singleton calls c ih =>
    have hsub : pairs calls ⊆ pairs (calls ++ [c]) := by
      rw [pairs_concat]
      exact Finset.subset_insert _ _
    obtain ⟨hredis, hseen⟩ := ih ((Finset.card_le_card hsub).trans hmax)
    have hroom := (card_localIds_le (calls ++ [c])).trans hmax
    have hpair : c.pair ∈ pairs (calls ++ [c]) := by simp [pairs_concat]
    have hids := localIds_concat calls c
    rw [localIds_concat] at hroom
    rw [after_concat]
    unfold consumeEngineEventOnce
    cases hmode : c.redis with
    | available =>
      rw [if_neg (by simp [EngineEventCall.isLocal, hmode])] at hids
      dsimp only
      split_ifs
      · exact ⟨hredis.trans hsub, hids ▸ hseen⟩
      · exact ⟨Finset.insert_subset hpair (hredis.trans hsub), hids ▸ hseen⟩
    | disabled =>
      rw [if_pos (by simp [EngineEventCall.isLocal, hmode])] at hroom hids
      exact ⟨hredis.trans hsub, hids ▸ hseen.consume hroom⟩
    | failing stored =>
      rw [if_pos (by simp [EngineEventCall.isLocal, hmode])] at hroom hids
      refine ⟨?_, hids ▸ hseen.consume hroom⟩
      cases stored with
      | false => exact hredis.trans hsub
      | true => exact Finset.insert_subset hpair (hredis.trans hsub)

theorem answer_of_isLocal {calls : List EngineEventCall} (hmax : (pairs calls).card ≤ localMax)
    {c : EngineEventCall} (hc : c.isLocal = true) :
    ((after calls).consumeEngineEventOnce c).1 = decide (c.eventId ∉ localIds calls) := by
  have hseen := (knows_after calls hmax).remembers
  unfold consumeEngineEventOnce
  cases hmode : c.redis with
  | available => simp [EngineEventCall.isLocal, hmode] at hc
  | disabled | failing stored => exact hseen.consume_eq c.eventId

theorem mem_localIds {calls : List EngineEventCall} {n : ℕ} :
    n ∈ localIds calls ↔ ∃ d ∈ calls, d.isLocal = true ∧ d.eventId = n := by
  simp [localIds, and_assoc]

/-- As long as no more than `localMax` events have come: the first call for an event is told to
apply it, unless the memory is asked and was asked before for the same number; and with Redis
turned off no later call is told so. -/
theorem first_call_applies
    (calls : List EngineEventCall) (c : EngineEventCall) (hmax : (pairs calls).card ≤ localMax) :
    (c.pair ∉ pairs calls → (((after calls).consumeEngineEventOnce c).1 = true ↔ (c.isLocal = true →
    ∀ d ∈ calls, d.isLocal = true → d.eventId ≠ c.eventId))) ∧ ((∀ d ∈ calls ++ [c], d.redis =
    .disabled) → c.pair ∈ pairs calls → ((after calls).consumeEngineEventOnce c).1 = false) := by
  constructor
  · intro hfirst
    by_cases hc : c.isLocal = true
    · rw [answer_of_isLocal hmax hc, decide_eq_true_iff, mem_localIds]
      simp [hc]
    · have hmode : c.redis = .available := by simpa [EngineEventCall.isLocal] using hc
      have hnew : c.pair ∉ (after calls).redis := fun h =>
        hfirst ((knows_after calls hmax).redis_subset h)
      simp [consumeEngineEventOnce, hmode, hnew, hc]
  · intro hoff hpair
    have hlocal : ∀ d ∈ calls ++ [c], d.isLocal = true := by
      intro d hd
      simp [EngineEventCall.isLocal, hoff d hd]
    obtain ⟨d, hd, heq⟩ := mem_map.mp (mem_toFinset.mp hpair)
    have hmem : c.eventId ∈ localIds calls :=
      mem_localIds.mpr ⟨d, hd, hlocal d (mem_append_left _ hd), congrArg Prod.snd heq⟩
    rw [answer_of_isLocal hmax (hlocal c (mem_append_right _ (mem_singleton_self _)))]
    simpa using hmem

/-- Without Redis, event 1 of a second engine is taken for event 1 of the first. -/
theorem second_engine_refused :
    (⟨"b", 1, .disabled⟩ : EngineEventCall).pair ∉ pairs [⟨"a", 1, .disabled⟩] ∧
      ((after [⟨"a", 1, .disabled⟩]).consumeEngineEventOnce ⟨"b", 1, .disabled⟩).1 = false := by
  decide +kernel

theorem second_event_applies :
    ((after [⟨"a", 1, .disabled⟩]).consumeEngineEventOnce ⟨"b", 2, .disabled⟩).1 = true :=
  ((first_call_applies [⟨"a", 1, .disabled⟩] ⟨"b", 2, .disabled⟩ (by decide +kernel)).1
    (by decide +kernel)).mpr (by decide +kernel)

end EngineDedup

end MetherCEX
