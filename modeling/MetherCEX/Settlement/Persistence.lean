import Mathlib.Data.List.MinMax
import MetherCEX.Engine.Types
import MetherCEX.Lib.Run

/-!
# Storing the fills of the engine

The fills of an engine reach `settlement_events` by four ways: in the answer to a placement, by
the pull after a placement, by the poller, all three of which go through
`persistEngineMatchEvents`, and by JetStream.
-/

namespace MetherCEX

open Run List

/-- A fill as the engine reports it. It is stored with the id the engine gave to it. -/
structure EngineMatchEvent where
  eventId : ℕ
  matchEngineId : String
  symbol : Market
  price : String
  qty : String
  takerOrderId : OrderId
  makerOrderId : OrderId
  takerUserId : UserId
  makerUserId : UserId
  takerSide : Side
  timestamp : ℕ
  deriving DecidableEq

/-- A row of `settlement_events`: its unique key and the fill it holds. -/
structure StoredEvent where
  matchEngineId : String
  engineEventId : ℕ
  payload : EngineMatchEvent
  deriving DecidableEq

def isSameMatchEvent (existing incoming : EngineMatchEvent) : Prop :=
  existing.matchEngineId = incoming.matchEngineId ∧ existing.eventId = incoming.eventId ∧
    existing.symbol = incoming.symbol ∧ existing.takerOrderId = incoming.takerOrderId ∧
    existing.makerOrderId = incoming.makerOrderId ∧
    existing.takerUserId = incoming.takerUserId ∧ existing.makerUserId = incoming.makerUserId ∧
    existing.takerSide = incoming.takerSide ∧ existing.price = incoming.price ∧
    existing.qty = incoming.qty
  deriving Decidable

theorem isSameMatchEvent_self (e : EngineMatchEvent) : isSameMatchEvent e e :=
  ⟨rfl, rfl, rfl, rfl, rfl, rfl, rfl, rfl, rfl, rfl⟩

def rowAt (rows : List StoredEvent) (engine : String) (id : ℕ) : Option StoredEvent :=
  rows.find? fun r => r.matchEngineId = engine ∧ r.engineEventId = id

/-- `COALESCE(MAX(engine_event_id), 0) + 1` of an engine. -/
def nextEventId (rows : List StoredEvent) (engine : String) : ℕ :=
  ((rows.filter (fun r => r.matchEngineId = engine)).map (·.engineEventId)).foldr max 0 + 1

def reassign (rows : List StoredEvent) (ev : EngineMatchEvent) : ℕ → List StoredEvent
  | 0 => rows
  | attempts + 1 =>
    match rowAt rows ev.matchEngineId (nextEventId rows ev.matchEngineId) with
    | none =>
      rows ++ [⟨ev.matchEngineId, nextEventId rows ev.matchEngineId, ev⟩]
    | some _ => reassign rows ev attempts

/-- One round of the loop of `persistEngineMatchEvents`. -/
def persistOne (rows : List StoredEvent) (ev : EngineMatchEvent) : List StoredEvent :=
  match rowAt rows ev.matchEngineId ev.eventId with
  | none => rows ++ [⟨ev.matchEngineId, ev.eventId, ev⟩]
  | some existing =>
    if isSameMatchEvent existing.payload ev then rows else reassign rows ev 3

def persistEngineMatchEvents (rows : List StoredEvent) (events : List EngineMatchEvent) :
    List StoredEvent :=
  events.foldl persistOne rows

/-- The fills that `persistEngineMatchEventsWithRetry` handles, one after another. -/
def attempts (events : List EngineMatchEvent) (failedAt : List ℕ) : List EngineMatchEvent :=
  failedAt.flatMap (fun k => events.take k) ++ events

def persistEngineMatchEventsWithRetry (rows : List StoredEvent) (events : List EngineMatchEvent)
    (failedAt : List ℕ) : List StoredEvent :=
  persistEngineMatchEvents
    (failedAt.foldl (fun rows k => persistEngineMatchEvents rows (events.take k)) rows) events

/-- The insert of `ingestAndSettleMatchEventFromJetStream`; what it does to the row after that does
not change which rows there are. -/
def ingestMatchEvent (rows : List StoredEvent) (ev : EngineMatchEvent) : List StoredEvent :=
  if ev.eventId < 1 then rows else
  match rowAt rows ev.matchEngineId ev.eventId with
  | none => rows ++ [⟨ev.matchEngineId, ev.eventId, ev⟩]
  | some _ => rows

inductive DeliveryCall
  | rustInline (events : List EngineMatchEvent) (failedAt : List ℕ)
  | syncPull (events : List EngineMatchEvent) (failedAt : List ℕ)
  | matchPoller (events : List EngineMatchEvent)
  | jetStream (event : EngineMatchEvent)
  deriving DecidableEq

def DeliveryCall.events : DeliveryCall → List EngineMatchEvent
  | .rustInline events _ => events
  | .syncPull events _ => events
  | .matchPoller events => events
  | .jetStream event => [event]

/-- The call returns without error. The others return once an attempt succeeds. -/
def DeliveryCall.Returns : DeliveryCall → Prop
  | .jetStream event => 1 ≤ event.eventId
  | _ => True

instance (call : DeliveryCall) : Decidable call.Returns := by
  cases call <;> dsimp only [DeliveryCall.Returns] <;> infer_instance

def deliverCall (rows : List StoredEvent) : DeliveryCall → List StoredEvent
  | .rustInline events failedAt => persistEngineMatchEventsWithRetry rows events failedAt
  | .syncPull events failedAt => persistEngineMatchEventsWithRetry rows events failedAt
  | .matchPoller events => persistEngineMatchEvents rows events
  | .jetStream event => ingestMatchEvent rows event

def delivered (calls : List DeliveryCall) : List EngineMatchEvent := calls.flatMap (·.events)

def Stored (rows : List StoredEvent) (ev : EngineMatchEvent) : Prop :=
  ∃ r ∈ rows, r.payload = ev
  deriving Decidable

/-- The key of the fill is free or its own, or the fill is new and differs from the one
that holds its key. -/
def PersistOk (rows : List StoredEvent) (ev : EngineMatchEvent) : Prop :=
  ∀ r ∈ rowAt rows ev.matchEngineId ev.eventId,
    r.payload = ev ∨ ¬ isSameMatchEvent r.payload ev ∧ ¬ Stored rows ev
  deriving Decidable

def IngestOk (rows : List StoredEvent) (ev : EngineMatchEvent) : Prop :=
  ∀ r ∈ rowAt rows ev.matchEngineId ev.eventId, r.payload = ev
  deriving Decidable

/-- Every fill of the call meets the condition of its way when it is handled. -/
def KeysMatch (rows : List StoredEvent) : DeliveryCall → Prop
  | .rustInline events failedAt => Along persistOne PersistOk rows (attempts events failedAt)
  | .syncPull events failedAt => Along persistOne PersistOk rows (attempts events failedAt)
  | .matchPoller events => Along persistOne PersistOk rows events
  | .jetStream event => IngestOk rows event

instance (rows : List StoredEvent) (call) : Decidable (KeysMatch rows call) := by
  cases call <;> dsimp only [KeysMatch] <;> infer_instance

/-- The table holds exactly the fills of `fills`, each once, and the key of every fill
stored is taken. -/
structure HoldsEach (rows : List StoredEvent) (fills : List EngineMatchEvent) : Prop where
  nodup : (rows.map (·.payload)).Nodup
  stored_iff : ∀ ev, Stored rows ev ↔ ev ∈ fills
  key_taken : ∀ r ∈ rows, rowAt rows r.payload.matchEngineId r.payload.eventId ≠ none

variable {rows : List StoredEvent} {fills : List EngineMatchEvent} {ev : EngineMatchEvent}

theorem rowAt_append_ne_none {engine : String} {id : ℕ} (h : rowAt rows engine id ≠ none)
    (r : StoredEvent) : rowAt (rows ++ [r]) engine id ≠ none := by
  rw [rowAt, find?_append]
  obtain ⟨r', hr'⟩ := Option.ne_none_iff_exists'.mp h
  rw [rowAt] at hr'
  rw [hr', Option.some_or]
  exact Option.some_ne_none r'

variable {r : StoredEvent} {events : List EngineMatchEvent}

theorem stored_of_rowAt {engine : String} {id : ℕ} (h : rowAt rows engine id = some r) :
    Stored rows r.payload :=
  ⟨r, mem_of_find?_eq_some h, rfl⟩

theorem engineEventId_lt_nextEventId (h : r ∈ rows) :
    r.engineEventId < nextEventId rows r.matchEngineId := by
  apply Nat.lt_succ_of_le
  apply List.le_max_of_le' 0 _ le_rfl
  apply mem_map_of_mem
  simp [h]

theorem rowAt_nextEventId (rows : List StoredEvent) (engine : String) :
    rowAt rows engine (nextEventId rows engine) = none := by
  rw [rowAt, find?_eq_none]
  intro r hr
  simp only [decide_eq_true_eq, not_and]
  rintro rfl
  exact (engineEventId_lt_nextEventId hr).ne

theorem reassign_eq (rows : List StoredEvent) (ev : EngineMatchEvent) (n : ℕ) : reassign
    rows ev (n + 1) = rows ++ [⟨ev.matchEngineId, nextEventId rows ev.matchEngineId, ev⟩] := by
  simp only [reassign, rowAt_nextEventId]

variable (h : HoldsEach rows fills)

include h

theorem HoldsEach.append (hnew : ¬ Stored rows r.payload)
    (hkey : rowAt (rows ++ [r]) r.payload.matchEngineId r.payload.eventId ≠ none) :
    HoldsEach (rows ++ [r]) (fills ++ [r.payload]) where
  nodup := by
    rw [map_append, map_singleton, ← concat_eq_append]
    apply h.nodup.concat
    intro hmem
    exact hnew (mem_map.mp hmem)
  stored_iff := by
    intro ev
    rw [mem_append, ← h.stored_iff ev, mem_singleton]
    simp only [Stored, mem_append, mem_singleton]
    constructor
    · rintro ⟨r', hr' | rfl, rfl⟩
      · exact .inl ⟨r', hr', rfl⟩
      · exact .inr rfl
    · rintro (⟨r', hr', rfl⟩ | rfl)
      · exact ⟨r', .inl hr', rfl⟩
      · exact ⟨r, .inr rfl, rfl⟩
  key_taken := by
    intro r' hr'
    rcases mem_append.mp hr' with hr' | hr'
    · exact rowAt_append_ne_none (h.key_taken r' hr') r
    · rw [mem_singleton.mp hr']
      exact hkey

theorem HoldsEach.again (hev : Stored rows ev) : HoldsEach rows (fills ++ [ev]) where
  nodup := h.nodup
  stored_iff := by
    intro ev'
    rw [mem_append, mem_singleton, h.stored_iff]
    constructor
    · exact .inl
    · rintro (h' | rfl)
      · exact h'
      · exact (h.stored_iff _).mp hev
  key_taken := h.key_taken

theorem HoldsEach.insert (hfree : rowAt rows ev.matchEngineId ev.eventId = none) :
    HoldsEach (rows ++ [⟨ev.matchEngineId, ev.eventId, ev⟩]) (fills ++ [ev]) := by
  apply h.append (r := ⟨ev.matchEngineId, ev.eventId, ev⟩)
  · rintro ⟨r, hr, hrev⟩
    have := h.key_taken r hr
    rw [hrev] at this
    exact this hfree
  · simp [rowAt, find?_append]

theorem HoldsEach.persistOne (hok : PersistOk rows ev) :
    HoldsEach (persistOne rows ev) (fills ++ [ev]) := by
  cases hrow : rowAt rows ev.matchEngineId ev.eventId with
  | none =>
    simp only [MetherCEX.persistOne, hrow]
    exact h.insert hrow
  | some r =>
    simp only [MetherCEX.persistOne, hrow]
    rcases hok r hrow with hev | ⟨hne, hnew⟩
    · rw [hev, if_pos (isSameMatchEvent_self ev)]
      exact h.again (hev ▸ stored_of_rowAt hrow)
    · rw [if_neg hne, reassign_eq]
      apply h.append hnew
      apply rowAt_append_ne_none
      rw [hrow]
      simp

theorem HoldsEach.persistEngineMatchEvents (hok : Along MetherCEX.persistOne PersistOk
    rows events) : HoldsEach (persistEngineMatchEvents rows events) (fills ++ events) := by
  induction events generalizing rows fills with
  | nil => simpa [MetherCEX.persistEngineMatchEvents] using h
  | cons ev events ih =>
    have hrest := ih (h.persistOne hok.1) hok.2
    rwa [append_assoc] at hrest

omit h

theorem persistEngineMatchEventsWithRetry_eq (rows : List StoredEvent)
    (events : List EngineMatchEvent) (failedAt : List ℕ) : persistEngineMatchEventsWithRetry
    rows events failedAt = persistEngineMatchEvents rows (attempts events failedAt) := by
  induction failedAt generalizing rows with
  | nil => rfl
  | cons k failedAt ih =>
    rw [attempts, flatMap_cons, append_assoc, persistEngineMatchEvents, foldl_append]
    exact ih (persistEngineMatchEvents rows (events.take k))

theorem HoldsEach.congr {fills' : List EngineMatchEvent} (h : HoldsEach rows fills)
    (hfills : ∀ ev, ev ∈ fills ↔ ev ∈ fills') : HoldsEach rows fills' where
  nodup := h.nodup
  stored_iff := fun ev => (h.stored_iff ev).trans (hfills ev)
  key_taken := h.key_taken

theorem mem_attempts {failedAt : List ℕ} : ev ∈ attempts events failedAt ↔ ev ∈ events := by
  simp only [attempts, mem_append, mem_flatMap]
  constructor
  · rintro (⟨k, -, h⟩ | h)
    · exact mem_of_mem_take h
    · exact h
  · exact .inr

theorem HoldsEach.withRetry {failedAt : List ℕ} (h : HoldsEach rows fills)
    (hok : Along MetherCEX.persistOne PersistOk rows (attempts events failedAt)) :
    HoldsEach (persistEngineMatchEventsWithRetry rows events failedAt) (fills ++ events) := by
  rw [persistEngineMatchEventsWithRetry_eq]
  apply (h.persistEngineMatchEvents hok).congr
  intro ev
  simp [mem_attempts]

theorem HoldsEach.deliverCall {call : DeliveryCall} (h : HoldsEach rows fills)
    (hreturns : call.Returns) (hok : KeysMatch rows call) :
    HoldsEach (deliverCall rows call) (fills ++ call.events) := by
  cases call with
  | rustInline events failedAt | syncPull events failedAt => exact h.withRetry hok
  | matchPoller events => exact h.persistEngineMatchEvents hok
  | jetStream event =>
    simp only [MetherCEX.deliverCall, ingestMatchEvent, DeliveryCall.events,
      if_neg (not_lt.mpr hreturns)]
    cases hrow : rowAt rows event.matchEngineId event.eventId with
    | none => exact h.insert hrow
    | some r => exact h.again (hok r hrow ▸ stored_of_rowAt hrow)

theorem HoldsEach.calls {calls : List DeliveryCall} (h : HoldsEach rows fills) (hok :
    Along MetherCEX.deliverCall (fun rows call => call.Returns ∧ KeysMatch rows call) rows calls) :
    HoldsEach (calls.foldl MetherCEX.deliverCall rows) (fills ++ delivered calls) := by
  induction calls generalizing rows fills with
  | nil => simpa [delivered] using h
  | cons call calls ih =>
    have hrest := ih (h.deliverCall hok.1.1 hok.1.2) hok.2
    rwa [append_assoc] at hrest

/-- After any sequence of calls that return there is exactly one row for each fill
delivered, and no other row. -/
theorem one_row_per_fill {calls : List DeliveryCall}
    (h : Along deliverCall (fun rows call => call.Returns ∧ KeysMatch rows call) [] calls) : (∀ ev ∈
    delivered calls, ((calls.foldl deliverCall []).filter (fun r => r.payload = ev)).length = 1) ∧
    ∀ r ∈ calls.foldl deliverCall [], r.payload ∈ delivered calls := by
  have hempty : HoldsEach [] [] := by
    constructor <;> simp [Stored]
  have hholds : HoldsEach (calls.foldl deliverCall []) (delivered calls) := hempty.calls h
  constructor
  · intro ev hev
    have hmem : ev ∈ (calls.foldl deliverCall []).map (·.payload) := by
      obtain ⟨r, hr, hrev⟩ := (hholds.stored_iff ev).mpr hev
      exact mem_map.mpr ⟨r, hr, hrev⟩
    have hcount := count_eq_one_of_mem hholds.nodup hmem
    rwa [count_eq_countP, countP_map, countP_eq_length_filter] at hcount
  · intro r hr
    exact (hholds.stored_iff r.payload).mp ⟨r, hr, rfl⟩

def sampleFill (id n : ℕ) : EngineMatchEvent :=
  { eventId := id
    matchEngineId := "engine"
    symbol := "BTC-USDT"
    price := "100"
    qty := "1"
    takerOrderId := n
    makerOrderId := 1000 + n
    takerUserId := 1
    makerUserId := 2
    takerSide := .buy
    timestamp := n }

def restartCalls : List DeliveryCall :=
  [.rustInline [sampleFill 1 1, sampleFill 2 2] [1], .jetStream (sampleFill 2 2),
   .syncPull [sampleFill 1 3] [], .matchPoller [sampleFill 2 2]]

theorem restartCalls_one_row_per_fill : (∀ ev ∈ delivered restartCalls,
    ((restartCalls.foldl deliverCall []).filter (fun r => r.payload = ev)).length = 1) ∧
    ∀ r ∈ restartCalls.foldl deliverCall [], r.payload ∈ delivered restartCalls :=
  one_row_per_fill (by decide +kernel)

/-- The fill that got a new id is stored again when the poller brings it, and JetStream
drops a fill whose id is taken. All calls return. -/
theorem fill_stored_twice_or_lost : (∀ call ∈ ([.rustInline [sampleFill 1 1] [],
    .rustInline [sampleFill 1 2] [], .matchPoller [sampleFill 1 2],
    .jetStream (sampleFill 1 1), .jetStream (sampleFill 1 2)] : List DeliveryCall), call.Returns) ∧
    (([.rustInline [sampleFill 1 1] [], .rustInline [sampleFill 1 2] [], .matchPoller [sampleFill
    1 2]].foldl deliverCall []).filter (fun r => r.payload = sampleFill 1 2)).length = 2 ∧
    (([.jetStream (sampleFill 1 1), .jetStream (sampleFill 1 2)].foldl deliverCall []).filter
    (fun r => r.payload = sampleFill 1 2)).length = 0 := by
  decide +kernel

end MetherCEX
