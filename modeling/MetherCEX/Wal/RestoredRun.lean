import MetherCEX.Wal.Snapshot
import MetherCEX.Engine.RolledBack

/-!
# A restored engine behaves like the one it was taken from

A snapshot lists the resting orders of all markets by market and id, and restoring it inserts them
one by one.
-/

namespace MetherCEX

open List SortedMap

theorem OrderBook.eq_of_mem_orders {b b' : OrderBook}
    (h : ∀ x, x ∈ b.orders ↔ x ∈ b'.orders) : b = b' := by
  have hside : ∀ {c c' : OrderBook}, (∀ x, x ∈ c.orders → x ∈ c'.orders) → ∀ s x,
      x ∈ c.ordersOn s → x ∈ c'.ordersOn s := by
    intro c c' hsub s x hx
    rw [← side_of_mem_ordersOn hx]
    exact mem_ordersOn_side (hsub x (mem_orders_of_mem_ordersOn hx))
  have hbid : ∀ {c c' : OrderBook}, (∀ x, x ∈ c.orders → x ∈ c'.orders) →
      ∀ entry ∈ c.bids.entries, entry ∈ c'.bids.entries := by
    intro c c' hsub entry hentry
    have hmem : entry.2 ∈ c.ordersOn .buy := mem_values.mpr ⟨entry.1, hentry⟩
    have hkey : entry = (BidKey.fromOrder entry.2, entry.2) :=
      Prod.ext (c.bids_keyed _ hentry).1 rfl
    rw [hkey]
    exact mem_bids_of_mem_ordersOn (hside hsub .buy _ hmem)
  have hask : ∀ {c c' : OrderBook}, (∀ x, x ∈ c.orders → x ∈ c'.orders) →
      ∀ entry ∈ c.asks.entries, entry ∈ c'.asks.entries := by
    intro c c' hsub entry hentry
    have hmem : entry.2 ∈ c.ordersOn .sell := mem_values.mpr ⟨entry.1, hentry⟩
    have hkey : entry = (AskKey.fromOrder entry.2, entry.2) :=
      Prod.ext (c.asks_keyed _ hentry).1 rfl
    rw [hkey]
    exact mem_asks_of_mem_ordersOn (hside hsub .sell _ hmem)
  exact eq_of_sides
    (ext_of_mem fun e =>
      ⟨hbid (fun x => (h x).mp) e, hbid (fun x => (h x).mpr) e⟩)
    (ext_of_mem fun e =>
      ⟨hask (fun x => (h x).mp) e, hask (fun x => (h x).mpr) e⟩)

/-- A call of the engine; beside placements and cancellations, the replay of an event. -/
inductive EngineCall (ε : Type)
  | op (op : PathOp ε)
  | replay (eventId : ℕ) (ev : MatchEvent)

inductive EngineReply
  | placed (pairs : Option (List (ℕ × MatchEvent)))
  | cancelled
  | replayed (result : Except FillError Unit)

namespace Engine

variable {e e' : Engine} {ε : Type}

def serve (e : Engine) : EngineCall ε → Engine × EngineReply
  | .op (.place path now o) =>
    let (e', pairs) := path.call e now o
    (e', .placed pairs)
  | .op (.cancel orderId) => (e.cancelOrder orderId, .cancelled)
  | .replay eventId ev =>
    match e.applyReplayEvent eventId ev with
    | .ok e' => (e', .replayed (.ok ()))
    | .error err => (e, .replayed (.error err))

def served (e : Engine) (calls : List (EngineCall ε)) : Engine :=
  calls.foldl (fun e call => (e.serve call).1) e

def answers (e : Engine) : List (EngineCall ε) → List EngineReply
  | [] => []
  | call :: calls => (e.serve call).2 :: answers (e.serve call).1 calls

/-- The same books, applied ids and next event id; the buffers may differ. -/
structure SameState (e e' : Engine) : Prop where
  books : e.SameBooks e'
  applied : ∀ id, id ∈ e.bookAppliedMatchEventIds ↔ id ∈ e'.bookAppliedMatchEventIds
  nextEventId : e.nextEventId = e'.nextEventId

namespace SameState

variable (h : e.SameState e')

include h

theorem commitBook (market : Market) (book : OrderBook) :
    (e.commitBook market book).SameState (e'.commitBook market book) := by
  refine ⟨fun m => ?_, h.applied, h.nextEventId⟩
  by_cases hm : m = market
  · rw [hm, bookOf_commitBook_self, bookOf_commitBook_self]
  · rw [bookOf_commitBook_of_ne _ _ hm, bookOf_commitBook_of_ne _ _ hm, h.books m]

theorem fetchAdd (n : ℕ) : (e.fetchAdd n).SameState (e'.fetchAdd n) :=
  ⟨h.books, h.applied, congrArg (fun next => (next + n) % usizeBound) h.nextEventId⟩

theorem enterMarket (market : Market) :
    (e.enterMarket market).SameState (e'.enterMarket market) := by
  rw [Engine.enterMarket, Engine.enterMarket, h.books market]
  exact h.commitBook market _

theorem recordEvents (pairs : List (ℕ × MatchEvent)) :
    (e.recordEvents pairs).SameState (e'.recordEvents pairs) := by
  refine ⟨fun m => ?_, fun id => ?_, ?_⟩
  · rw [bookOf, bookOf, orderBooks_recordEvents, orderBooks_recordEvents]
    exact h.books m
  · rw [mem_applied_recordEvents, mem_applied_recordEvents, h.applied id]
  · rw [nextEventId_recordEvents, nextEventId_recordEvents, h.nextEventId]

theorem cancelOrder (orderId : OrderId) :
    (e.cancelOrder orderId).SameState (e'.cancelOrder orderId) :=
  ⟨h.books.cancelOrder orderId, h.applied, h.nextEventId⟩

theorem placeGuarded (now : ℕ → ℕ) (o : Order) (guard : List (ℕ × MatchEvent) → Except ε Unit) :
    (e.placeGuarded now o guard).1.SameState (e'.placeGuarded now o guard).1 ∧
      (e.placeGuarded now o guard).2 = (e'.placeGuarded now o guard).2 := by
  simp only [Engine.placeGuarded, h.books.trialMatch_eq now o, h.nextEventId]
  split_ifs
  · exact ⟨h.commitBook _ _, rfl⟩
  · cases guard (numberEvents e'.nextEventId (e'.trialMatch now o).1) with
    | error err => exact ⟨(h.fetchAdd _).enterMarket _, rfl⟩
    | ok _ => exact ⟨((h.fetchAdd _).commitBook _ _).recordEvents _, rfl⟩

theorem placeOrder (now : ℕ → ℕ) (o : Order) : (e.placeOrder now o).1.SameState
    (e'.placeOrder now o).1 ∧ (e.placeOrder now o).2 = (e'.placeOrder now o).2 := by
  have hpairs : (e.placeOrder now o).2 = (e'.placeOrder now o).2 := by
    rw [placeOrder_snd, placeOrder_snd, h.nextEventId, h.books.trialMatch_eq now o]
  refine ⟨?_, hpairs⟩
  simp only [Engine.placeOrder, h.books.trialMatch_eq now o]
  have hcommit := h.commitBook o.market (e'.trialMatch now o).2
  rw [hcommit.nextEventId]
  split_ifs
  · exact (hcommit.fetchAdd _).recordEvents _
  · exact hcommit.recordEvents _

theorem call (now : ℕ → ℕ) (o : Order) (path : PlacePath ε) : (path.call e now o).1.SameState
    (path.call e' now o).1 ∧ (path.call e now o).2 = (path.call e' now o).2 := by
  cases path with
  | placeOrder =>
    obtain ⟨hstate, hpairs⟩ := h.placeOrder now o
    exact ⟨hstate, congrArg some hpairs⟩
  | commitAfterPublish publish =>
    obtain ⟨hstate, hresult⟩ := h.placeGuarded now o publish
    exact ⟨hstate, congrArg Except.toOption hresult⟩
  | walThenCommitBook walPreCommit =>
    obtain ⟨hstate, hresult⟩ := h.placeGuarded now o walPreCommit
    exact ⟨hstate, congrArg Except.toOption hresult⟩
  | walPublishCommitBook walPreCommit publish =>
    obtain ⟨hstate, hresult⟩ := h.placeGuarded now o fun pairs => do
      walPreCommit pairs
      publish pairs
    exact ⟨hstate, congrArg Except.toOption hresult⟩

theorem serve (call : EngineCall ε) :
    (e.serve call).1.SameState (e'.serve call).1 ∧ (e.serve call).2 = (e'.serve call).2 := by
  cases call with
  | op op =>
    cases op with
    | place path now o =>
      obtain ⟨hstate, hpairs⟩ := h.call now o path
      exact ⟨hstate, congrArg EngineReply.placed hpairs⟩
    | cancel orderId => exact ⟨h.cancelOrder orderId, rfl⟩
  | replay eventId ev =>
    simp only [Engine.serve, applyReplayEvent, h.applied eventId, h.books ev.market]
    by_cases hid : eventId ∈ e'.bookAppliedMatchEventIds
    · rw [if_pos hid, if_pos hid]
      exact ⟨h, rfl⟩
    · rw [if_neg hid, if_neg hid]
      cases (e'.bookOf ev.market).applyMatchFill ev with
      | error err => exact ⟨h, rfl⟩
      | ok book =>
        have hcommit := h.commitBook ev.market book
        refine ⟨⟨fun m => ?_, fun id => ?_, ?_⟩, rfl⟩
        · simp only [bookOf, orderBooks_insertMatchEventSorted]
          exact hcommit.books m
        · simp only [applied_insertMatchEventSorted, recordBookAppliedForEventIds,
            mem_foldl_insert]
          exact or_congr_left (h.applied id)
        · simp only [nextEventId_insertMatchEventSorted]
          exact h.nextEventId

theorem foldl (calls : List (EngineCall ε)) :
    (e.served calls).SameState (e'.served calls) ∧ e.answers calls = e'.answers calls := by
  induction calls generalizing e e' with
  | nil => exact ⟨h, rfl⟩
  | cons call calls ih =>
    obtain ⟨hstate, hanswer⟩ := h.serve call
    obtain ⟨hserved, hanswers⟩ := ih hstate
    exact ⟨hserved, congrArg₂ List.cons hanswer hanswers⟩

end SameState

end Engine

def pathOrders {ε : Type} (ops : List (PathOp ε)) : List Order :=
  ops.filterMap fun
    | .place _ _ o => some o
    | .cancel _ => none

def pathIds {ε : Type} (ops : List (PathOp ε)) : List OrderId := (pathOrders ops).map Order.id

namespace PathTrace

variable {ε : Type}

theorem wellFormed_run (ops : List (PathOp ε)) (hids : (pathIds ops).Nodup) :
    (run ops).engine.WellFormed ∧ ∀ x ∈ (run ops).engine.orders, x.id ∈ pathIds ops := by
  induction ops using List.reverseRecOn with
  | nil => exact ⟨Engine.WellFormed.new, nofun⟩
  | append_singleton ops op ih =>
    have hrun : run (ops ++ [op]) = (run ops).step op := foldl_concat _ _ _ _
    rw [hrun]
    cases op with
    | cancel orderId =>
      have hsame : pathIds (ops ++ [.cancel orderId]) = pathIds ops := by
        simp [pathIds, pathOrders]
      rw [hsame] at hids ⊢
      obtain ⟨hwf, hplaced⟩ := ih hids
      refine ⟨hwf.cancelOrder orderId, fun x hx => hplaced x ?_⟩
      change x ∈ ((run ops).engine.cancelOrder orderId).orders at hx
      rw [Engine.orders_cancelOrder] at hx
      exact mem_of_mem_filter hx
    | place path now o =>
      have hsplit : pathIds (ops ++ [.place path now o]) = pathIds ops ++ [o.id] := by
        simp [pathIds, pathOrders]
      rw [hsplit] at hids ⊢
      obtain ⟨hnodup, -, hdisjoint⟩ := nodup_append.mp hids
      obtain ⟨hwf, hplaced⟩ := ih hnodup
      have hfresh : ∀ x ∈ (run ops).engine.orders, x.id ≠ o.id := fun x hx =>
        hdisjoint _ (hplaced x hx) _ (mem_singleton_self _)
      rcases path.call_cases (run ops).engine now o with hcall | hcall
      · rw [step, hcall]
        refine ⟨hwf.placeOrder hfresh now, fun x hx => ?_⟩
        obtain ⟨y, hy, hxy⟩ := Engine.exists_of_mem_orders_placeOrder hx
        rw [hxy.id_eq, mem_append]
        rcases hy with rfl | hy
        · exact .inr (mem_singleton_self _)
        · exact .inl (hplaced y hy)
      · -- a failed placement leaves the orders
        rw [step, hcall]
        have hcounted : ((run ops).engine.fetchAdd
            ((run ops).engine.trialMatch now o).1.length).WellFormed := hwf.congr rfl
        refine ⟨hcounted.enterMarket o.market, fun x hx => mem_append_left _ ?_⟩
        exact hplaced x ((Engine.orders_enterMarket_perm _ _).mem_iff.mp hx)

end PathTrace

namespace EnginePersistenceSnapshot

/-- Taking a snapshot of a well formed engine and restoring it gives the same books,
applied ids and next event id, unless the counter is at 0. -/
theorem sameState_apply_fromEngine {e : Engine} (h : e.WellFormed) (hnext : e.nextEventId ≠ 0)
    (engineId : String) : (fromEngine e engineId).applySnapshotToEngine.SameState e := by
  obtain ⟨hwf, hperm⟩ := orders_apply_fromEngine h engineId
  refine ⟨fun market => OrderBook.eq_of_mem_orders fun x => ⟨fun hx => ?_, fun hx => ?_⟩,
    fun id => ?_, ?_⟩
  · have hmarket := hwf.market_of_mem hx
    rw [← hmarket]
    exact h.mem_bookOf (hperm.mem_iff.mp (Engine.mem_orders_of_mem_bookOf hx))
  · have hmarket := h.market_of_mem hx
    rw [← hmarket]
    exact hwf.mem_bookOf (hperm.mem_iff.mpr (Engine.mem_orders_of_mem_bookOf hx))
  · rw [mem_applied_applySnapshotToEngine]
    exact Engine.mem_bookAppliedMatchIdsSnapshot
  · exact max_eq_left (Nat.one_le_iff_ne_zero.mpr hnext)

end EnginePersistenceSnapshot

open EnginePersistenceSnapshot PathTrace in
/-- Snapshot and restore are observationally exact when the engine is quiet: for every
state reached from `Engine::new` by placements with distinct ids and cancellations, unless
its next event id is 0, the engine restored from its snapshot has the same books, applied
ids and next event id, and every later sequence of placements, cancellations and replay
events returns the same and leaves the same. -/
theorem restored_observably_same {ε : Type} (ops : List (PathOp ε)) (hids : (pathIds ops).Nodup)
    (hnext : (run ops).engine.nextEventId ≠ 0) (engineId : String) : (fromEngine (run ops).engine
    engineId).applySnapshotToEngine.SameState (run ops).engine ∧ ∀ calls : List (EngineCall ε),
    (fromEngine (run ops).engine engineId).applySnapshotToEngine.answers calls =
    (run ops).engine.answers calls ∧ ((fromEngine (run ops).engine
    engineId).applySnapshotToEngine.served calls).SameState ((run ops).engine.served calls) := by
  have hsame := sameState_apply_fromEngine (wellFormed_run ops hids).1 hnext engineId
  refine ⟨hsame, fun calls => ?_⟩
  obtain ⟨hserved, hanswers⟩ := hsame.foldl calls
  exact ⟨hanswers, hserved⟩

def quietRun : List (PathOp String) :=
  [.place .placeOrder noClock ⟨7, 10, "BTC_USDT", .sell, .limit, some 100, 2, 2, 5⟩,
    .place .placeOrder noClock ⟨3, 11, "BTC_USDT", .sell, .limit, some 100, 1, 1, 6⟩,
    .place .placeOrder noClock ⟨9, 12, "BTC_USDT", .buy, .limit, some 100, 1, 1, 7⟩,
    .cancel 4]

open EnginePersistenceSnapshot PathTrace in
theorem quietRun_restored :
    (fromEngine (run quietRun).engine "e1").orders.map Order.id = [3, 7] ∧
      (fromEngine (run quietRun).engine "e1").applySnapshotToEngine.SameState
        (run quietRun).engine :=
  ⟨by decide +kernel,
    (restored_observably_same quietRun (by decide) (by decide +kernel) "e1").1⟩

theorem placedIds_unitTrades (market : Market) (first : OrderId) (n : ℕ) :
    placedIds (unitTrades market first n) = List.range' first (2 * n) := by
  induction n with
  | zero => rfl
  | succ n ih =>
    have hsplit : unitTrades market first (n + 1) =
        unitTrades market first n ++ unitTrade market (first + 2 * n) := by
      simp [unitTrades, range_succ]
    have hids : placedIds (unitTrade market (first + 2 * n)) =
        List.range' (first + 2 * n) 2 := rfl
    rw [hsplit, placedIds, placedOrders, filterMap_append, map_append]
    change placedIds (unitTrades market first n) ++
      placedIds (unitTrade market (first + 2 * n)) = _
    rw [ih, hids, Nat.mul_succ]
    exact List.range'_append_1

theorem pathIds_via {ε : Type} (path : PlacePath ε) (ops : List EngineOp) :
    pathIds (ops.map (EngineOp.via path)) = placedIds ops := by
  rw [pathIds, placedIds, pathOrders, placedOrders, filterMap_map]
  congr 2
  funext op
  cases op <;> rfl

theorem nextEventId_publishedTrades (n : ℕ) :
    (PathTrace.run (publishedTrades n)).engine.nextEventId = (1 + n) % usizeBound := by
  have hvia := PathTrace.foldl_via (.commitAfterPublish fun _ => .ok () : PlacePath String)
    (unitTrades "BTC_USDT" 1 n) (s := PathTrace.init) (t := ⟨Engine.new, []⟩) rfl rfl
  have htrades := (EngineTrace.unitTrades_run (s := ⟨Engine.new, []⟩) 1 n
    (rfl : Engine.new.bookOf "BTC_USDT" = .new) (by decide)).next
  rw [length_map, length_range] at htrades
  exact (congrArg Engine.nextEventId hvia.1).trans htrades

theorem nodup_pathIds_publishedTrades (n : ℕ) : (pathIds (publishedTrades n)).Nodup := by
  rw [publishedTrades, pathIds_via, placedIds_unitTrades]
  exact nodup_range'

open EnginePersistenceSnapshot PathTrace in
/-- After `2 ^ 64 - 1` trades the counter is at 0; the restored engine gives the next event
the id 1. -/
theorem wrappedEngine_restored :
    (pathIds (publishedTrades (usizeBound - 1))).Nodup ∧
      (run (publishedTrades (usizeBound - 1))).engine.nextEventId = 0 ∧
      (fromEngine (run (publishedTrades (usizeBound - 1))).engine
        "e1").applySnapshotToEngine.nextEventId = 1 := by
  -- the number of trades stays a variable, or it is computed with
  have hgeneral : ∀ n, (1 + n) % usizeBound = 0 → (pathIds (publishedTrades n)).Nodup ∧
      (run (publishedTrades n)).engine.nextEventId = 0 ∧
      (fromEngine (run (publishedTrades n)).engine "e1").applySnapshotToEngine.nextEventId =
        1 := by
    intro n hn
    have hzero := (nextEventId_publishedTrades n).trans hn
    refine ⟨nodup_pathIds_publishedTrades n, hzero, ?_⟩
    exact congrArg (max · 1) hzero
  exact hgeneral (usizeBound - 1) (by decide)

end MetherCEX
