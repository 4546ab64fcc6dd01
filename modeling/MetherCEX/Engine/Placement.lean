import MetherCEX.Engine.MatchOutcome

/-!
# What a placement does to the engine

The books of the markets are independent: a placement changes the book of its order's market and
no other.
-/

namespace MetherCEX

open List SortedMap

namespace Engine

variable {e : Engine} {o : Order}

theorem insertMatchEventSorted_eq (e : Engine) (id : ℕ) (ev : MatchEvent) :
    ∃ w, e.insertMatchEventSorted id ev = { e with matchEvents := w } := by
  unfold insertMatchEventSorted
  split
  · exact ⟨e.matchEvents, rfl⟩
  · exact ⟨_, rfl⟩

theorem insertEvents_eq (e : Engine) (pairs : List (ℕ × MatchEvent)) :
    ∃ w, e.insertEvents pairs = { e with matchEvents := w } := by
  induction pairs generalizing e with
  | nil => exact ⟨e.matchEvents, rfl⟩
  | cons p pairs ih =>
    obtain ⟨w, hw⟩ := e.insertMatchEventSorted_eq p.1 p.2
    obtain ⟨w', hw'⟩ := ih (e.insertMatchEventSorted p.1 p.2)
    refine ⟨w', ?_⟩
    rw [hw] at hw'
    exact (congrArg (fun d => insertEvents d pairs) hw).trans hw'

@[simp] theorem orderBooks_insertMatchEventSorted (e : Engine) (id : ℕ) (ev : MatchEvent) :
    (e.insertMatchEventSorted id ev).orderBooks = e.orderBooks := by
  obtain ⟨w, hw⟩ := e.insertMatchEventSorted_eq id ev
  rw [hw]

@[simp] theorem applied_insertMatchEventSorted (e : Engine) (id : ℕ) (ev : MatchEvent) :
    (e.insertMatchEventSorted id ev).bookAppliedMatchEventIds = e.bookAppliedMatchEventIds := by
  obtain ⟨w, hw⟩ := e.insertMatchEventSorted_eq id ev
  rw [hw]

@[simp] theorem nextEventId_insertMatchEventSorted (e : Engine) (id : ℕ) (ev : MatchEvent) :
    (e.insertMatchEventSorted id ev).nextEventId = e.nextEventId := by
  obtain ⟨w, hw⟩ := e.insertMatchEventSorted_eq id ev
  rw [hw]

@[simp] theorem orderBooks_recordEvents (e : Engine) (pairs : List (ℕ × MatchEvent)) :
    (e.recordEvents pairs).orderBooks = e.orderBooks := by
  obtain ⟨w, hw⟩ := e.insertEvents_eq pairs
  rw [recordEvents, hw]
  rfl

@[simp] theorem nextEventId_recordEvents (e : Engine) (pairs : List (ℕ × MatchEvent)) :
    (e.recordEvents pairs).nextEventId = e.nextEventId := by
  obtain ⟨w, hw⟩ := e.insertEvents_eq pairs
  rw [recordEvents, hw]
  rfl

@[simp] theorem applied_insertEvents (e : Engine) (pairs : List (ℕ × MatchEvent)) :
    (e.insertEvents pairs).bookAppliedMatchEventIds = e.bookAppliedMatchEventIds := by
  obtain ⟨w, hw⟩ := e.insertEvents_eq pairs
  rw [hw]

variable {id start : ℕ} {events : List MatchEvent} {market : Market}

theorem mem_foldl_insert {ids applied : List ℕ} :
    id ∈ ids.foldl (fun applied id => applied.insert id) applied ↔ id ∈ applied ∨ id ∈ ids := by
  induction ids generalizing applied with
  | nil => simp
  | cons i ids ih =>
    rw [foldl_cons, ih, mem_insert_iff, mem_cons]
    tauto

theorem mem_applied_recordEvents {pairs : List (ℕ × MatchEvent)} :
    id ∈ (e.recordEvents pairs).bookAppliedMatchEventIds ↔
      id ∈ e.bookAppliedMatchEventIds ∨ id ∈ pairs.map Prod.fst := by
  rw [recordEvents, recordBookAppliedForEventIds, mem_foldl_insert, applied_insertEvents]

theorem orderBooks_placeOrder (e : Engine) (now : ℕ → ℕ) (o : Order) : (e.placeOrder
    now o).1.orderBooks = (e.commitBook o.market (e.trialMatch now o).2).orderBooks := by
  simp only [placeOrder, orderBooks_recordEvents]
  split <;> rfl

theorem numberEvents_snd (start : ℕ) (es : List MatchEvent) :
    (numberEvents start es).map Prod.snd = es := by
  rw [numberEvents, map_map]
  exact zipIdx_map_fst 0 es

theorem mem_numberEvents {p : ℕ × MatchEvent} (hp : p ∈ numberEvents start events)
    (hbound : start + events.length < usizeBound) : start ≤ p.1 ∧ p.1 < start + events.length := by
  obtain ⟨⟨ev, i⟩, hi, rfl⟩ := mem_map.mp hp
  have hlt := List.snd_lt_of_mem_zipIdx hi
  simp only at hlt ⊢
  rw [Nat.mod_eq_of_lt (by omega)]
  omega

theorem mem_applied_placeOrder {now : ℕ → ℕ} : id ∈ (e.placeOrder now o).1.bookAppliedMatchEventIds
    ↔ id ∈ e.bookAppliedMatchEventIds ∨ id ∈ (e.placeOrder now o).2.map Prod.fst := by
  simp only [placeOrder]
  rw [mem_applied_recordEvents]
  split_ifs <;> rfl

theorem numberEvents_fst (hbound : start + events.length < usizeBound) :
    (numberEvents start events).map Prod.fst = List.range' start events.length := by
  rw [List.range'_eq_map_range, numberEvents, map_map, range_eq_range',
    ← zipIdx_map_snd 0 events, map_map]
  refine map_congr_left fun e he => ?_
  have hlt := List.snd_lt_of_mem_zipIdx he
  exact Nat.mod_eq_of_lt (by omega)

theorem numberEvents_sorted (hbound : start + events.length < usizeBound) :
    ((numberEvents start events).map Prod.fst).Pairwise (· < ·) := by
  rw [numberEvents_fst hbound]
  exact pairwise_lt_range'

theorem nextEventId_placeOrder (e : Engine) (now : ℕ → ℕ)
    (o : Order) (hbound : e.nextEventId + (e.trialMatch now o).1.length < usizeBound) :
    (e.placeOrder now o).1.nextEventId = e.nextEventId + (e.trialMatch now o).1.length := by
  simp only [placeOrder, nextEventId_recordEvents]
  split_ifs with hlen
  · exact Nat.mod_eq_of_lt hbound
  · rw [Nat.eq_zero_of_not_pos hlen]
    rfl

theorem events_placeOrder (e : Engine) (now : ℕ → ℕ) (o : Order) :
    (e.placeOrder now o).2.map Prod.snd = (e.trialMatch now o).1 :=
  numberEvents_snd _ _

/-- What a guarded placement does: it commits at once without events, and
otherwise takes the ids and commits exactly when the callback succeeds. -/
theorem placeGuarded_cases {ε : Type} (e : Engine) (now : ℕ → ℕ) (o : Order)
    (guard : List (ℕ × MatchEvent) → Except ε Unit) : (e.pendingPairs now o = [] ∧ e.placeGuarded
    now o guard = (e.commitBook o.market (e.trialMatch now o).2, .ok [])) ∨ (∃ err, guard
    (e.pendingPairs now o) = .error err ∧ e.placeGuarded now o guard = ((e.fetchAdd (e.trialMatch
    now o).1.length).enterMarket o.market, .error err)) ∨ (guard (e.pendingPairs now o) = .ok () ∧
    e.placeGuarded now o guard = (((e.fetchAdd (e.trialMatch now o).1.length).commitBook o.market
    (e.trialMatch now o).2).recordEvents (e.pendingPairs now o), .ok (e.pendingPairs now o))) := by
  simp only [placeGuarded, pendingPairs]
  by_cases hnil : (e.trialMatch now o).1 = []
  · left
    simp [hnil, numberEvents]
  · right
    rw [if_neg hnil]
    cases guard (numberEvents e.nextEventId (e.trialMatch now o).1) with
    | error err => exact .inl ⟨err, rfl, rfl⟩
    | ok u => exact .inr ⟨rfl, rfl⟩

theorem bookOf_of_get? {book : OrderBook} (h : e.orderBooks.get? market = some book) :
    e.bookOf market = book := by
  rw [bookOf, h]
  rfl

theorem bookOf_of_mem {p : Market × OrderBook} (hp : p ∈ e.orderBooks.entries) :
    e.bookOf p.1 = p.2 :=
  bookOf_of_get? (get?_eq_some.mpr hp)

@[simp] theorem bookOf_commitBook_self (e : Engine) (market : Market) (book : OrderBook) :
    (e.commitBook market book).bookOf market = book := by
  simp [bookOf, commitBook]

theorem bookOf_commitBook_of_ne (e : Engine) {m : Market} (book : OrderBook) (h : m ≠ market) :
    (e.commitBook market book).bookOf m = e.bookOf m := by
  rw [bookOf, commitBook, get?_insert_of_ne _ _ h]
  rfl

def otherOrders (e : Engine) (market : Market) : List Order :=
  (e.orderBooks.remove market).values.flatMap OrderBook.orders

theorem orders_perm (e : Engine) (market : Market) :
    e.orders.Perm ((e.bookOf market).orders ++ e.otherOrders market) := by
  cases h : e.orderBooks.get? market with
  | none =>
    have hkey := get?_eq_none.mp h
    rw [bookOf, h, otherOrders, remove_of_not_mem hkey]
    exact List.Perm.refl _
  | some book =>
    have hmem := get?_eq_some.mp h
    have hperm := ((perm_cons_remove hmem).map Prod.snd).flatMap_right
      OrderBook.orders
    rw [bookOf, h]
    exact hperm

theorem orders_commitBook_perm (e : Engine) (market : Market) (book : OrderBook) :
    (e.commitBook market book).orders.Perm (book.orders ++ e.otherOrders market) := by
  have hperm := (e.commitBook market book).orders_perm market
  rw [bookOf_commitBook_self] at hperm
  have hother : (e.commitBook market book).otherOrders market = e.otherOrders market := by
    rw [otherOrders, commitBook, remove_insert]
    rfl
  rwa [hother] at hperm

theorem orders_enterMarket_perm (e : Engine) (market : Market) :
    (e.enterMarket market).orders.Perm e.orders :=
  (e.orders_commitBook_perm market _).trans (e.orders_perm market).symm

theorem mem_orders_of_mem_bookOf {x : Order} (hx : x ∈ (e.bookOf market).orders) : x ∈ e.orders :=
  (e.orders_perm market).mem_iff.mpr (mem_append_left _ hx)

@[simp] theorem orders_cancelOrder (e : Engine) (orderId : OrderId) :
    (e.cancelOrder orderId).orders = e.orders.filter fun o => decide (o.id ≠ orderId) := by
  rw [orders, orders, cancelOrder, values_mapValues, flatMap_map,
    filter_flatMap]
  exact flatMap_congr fun b _ => b.orders_cancelOrder orderId

/-- No id rests twice, every order has something left, and every order is in the
book of its own market. -/
structure WellFormed (e : Engine) : Prop where
  distinct : (e.orders.map Order.id).Nodup
  positive : ∀ x ∈ e.orders, 0 < x.remaining
  market_eq : ∀ p ∈ e.orderBooks.entries, ∀ x ∈ p.2.orders, x.market = p.1

namespace WellFormed

theorem congr {e' : Engine} (h : e.WellFormed) (heq : e'.orderBooks = e.orderBooks) :
    e'.WellFormed := by
  obtain ⟨hid, hpos, hmarket⟩ := h
  refine ⟨?_, ?_, ?_⟩
  · rwa [orders, heq]
  · rwa [orders, heq]
  · rwa [heq]

theorem new : Engine.new.WellFormed :=
  ⟨nodup_nil, nofun, nofun⟩

variable {x : Order} {market : Market}

variable (h : e.WellFormed)

include h

theorem market_of_mem (hx : x ∈ (e.bookOf market).orders) : x.market = market := by
  cases hb : e.orderBooks.get? market with
  | none =>
    rw [bookOf, hb] at hx
    exact nomatch hx
  | some book =>
    have hmem := get?_eq_some.mp hb
    rw [bookOf_of_mem hmem] at hx
    exact h.market_eq _ hmem x hx

theorem mem_bookOf (hx : x ∈ e.orders) : x ∈ (e.bookOf x.market).orders := by
  obtain ⟨b, hb, hxb⟩ := mem_flatMap.mp hx
  obtain ⟨market, hmem⟩ := mem_values.mp hb
  rw [h.market_eq _ hmem x hxb]
  exact (bookOf_of_mem hmem).symm ▸ hxb

theorem distinctIds (market : Market) : (e.bookOf market).DistinctIds := by
  have hnodup := ((e.orders_perm market).map Order.id).nodup_iff.mp h.distinct
  rw [map_append] at hnodup
  exact (nodup_append.mp hnodup).1

theorem positiveRemaining (market : Market) : (e.bookOf market).PositiveRemaining :=
  fun x hx => h.positive x (mem_orders_of_mem_bookOf hx)

theorem market_ne_of_mem_otherOrders (hx : x ∈ e.otherOrders market) : x.market ≠ market := by
  obtain ⟨b, hb, hxb⟩ := mem_flatMap.mp hx
  obtain ⟨m, hm⟩ := mem_values.mp hb
  obtain ⟨hm, hne⟩ := mem_remove.mp hm
  rw [h.market_eq _ hm x hxb]
  exact hne

omit h

theorem commitBook {book : OrderBook} (hid : ((book.orders ++ e.otherOrders market).map
    Order.id).Nodup) (hpos : ∀ x ∈ book.orders ++ e.otherOrders market, 0 < x.remaining)
    (hmarket : ∀ x ∈ book.orders, x.market = market) (hother : ∀ p ∈ e.orderBooks.entries,
    p.1 ≠ market → ∀ x ∈ p.2.orders, x.market = p.1) : (e.commitBook market book).WellFormed := by
  have hperm := e.orders_commitBook_perm market book
  refine ⟨?_, ?_, ?_⟩
  · exact (hperm.map Order.id).nodup_iff.mpr hid
  · exact fun x hx => hpos x (hperm.mem_iff.mp hx)
  · intro p hp
    rcases mem_insert.mp hp with rfl | ⟨hp, hne⟩
    · exact hmarket
    · exact hother p hp hne

theorem commit (h : e.WellFormed) {book : OrderBook} (hid : book.DistinctIds)
    (hpos : book.PositiveRemaining) (hmarket : ∀ x ∈ book.orders, x.market = market)
    (hother : ∀ x ∈ book.orders, ∀ y ∈ e.otherOrders market, x.id ≠ y.id) :
    (e.commitBook market book).WellFormed := by
  refine WellFormed.commitBook ?_ (fun x hx => ?_) hmarket fun p hp _ => h.market_eq p hp
  · have hnodup := ((e.orders_perm market).map Order.id).nodup_iff.mp h.distinct
    rw [map_append, nodup_append] at hnodup
    rw [map_append, nodup_append]
    refine ⟨hid, hnodup.2.1, fun i hi j hj => ?_⟩
    obtain ⟨x, hx, rfl⟩ := mem_map.mp hi
    obtain ⟨y, hy, rfl⟩ := mem_map.mp hj
    exact hother x hx y hy
  · rcases mem_append.mp hx with hx | hx
    · exact hpos x hx
    · exact h.positive x ((e.orders_perm market).mem_iff.mpr (mem_append_right _ hx))

theorem enterMarket (h : e.WellFormed) (market : Market) : (e.enterMarket market).WellFormed := by
  have hperm := e.orders_perm market
  refine WellFormed.commitBook ?_ (fun x hx => ?_) (fun x hx => h.market_of_mem hx)
    fun p hp _ => h.market_eq p hp
  · exact (hperm.map Order.id).nodup_iff.mp h.distinct
  · exact h.positive x (hperm.mem_iff.mpr hx)

theorem cancelOrder (h : e.WellFormed) (orderId : OrderId) :
    (e.cancelOrder orderId).WellFormed := by
  refine ⟨?_, ?_, ?_⟩
  · rw [orders_cancelOrder]
    exact h.distinct.sublist (filter_sublist.map _)
  · rw [orders_cancelOrder]
    exact fun x hx => h.positive x (mem_of_mem_filter hx)
  · intro p hp x hx
    obtain ⟨q, hq, rfl⟩ := mem_map.mp hp
    rw [OrderBook.orders_cancelOrder] at hx
    exact h.market_eq q hq x (mem_of_mem_filter hx)

end WellFormed

theorem mem_of_mem_insertOrder {x : Order} (hx : x ∈ (e.insertOrder o).orders) :
    x = o ∨ x ∈ e.orders := by
  have hperm := e.orders_commitBook_perm o.market ((e.bookOf o.market).insert o)
  rcases mem_append.mp (hperm.mem_iff.mp hx) with hx | hx
  · rcases mem_cons.mp (((e.bookOf o.market).insert_orders_perm o).mem_iff.mp hx)
      with hx | hx
    · exact .inl hx
    · exact .inr (mem_orders_of_mem_bookOf (mem_of_mem_filter hx))
  · exact .inr ((e.orders_perm o.market).mem_iff.mpr (mem_append_right _ hx))

theorem insertOrder_eq (e : Engine) (o : Order) :
    e.insertOrder o = e.commitBook o.market ((e.bookOf o.market).insert o) := rfl

theorem insertOrder_orders_perm (h : e.WellFormed) (o : Order) : (e.insertOrder o).orders.Perm
    (o :: e.orders.filter fun x => decide (¬ (SameKey x o ∧ x.market = o.market))) := by
  have hown : (e.bookOf o.market).orders.filter
      (fun x => decide (¬ (SameKey x o ∧ x.market = o.market))) =
        (e.bookOf o.market).orders.filter fun x => decide (¬ SameKey x o) := by
    refine filter_congr fun x hx => ?_
    simp [h.market_of_mem hx]
  have hother : (e.otherOrders o.market).filter
      (fun x => decide (¬ (SameKey x o ∧ x.market = o.market))) = e.otherOrders o.market := by
    refine filter_eq_self.mpr fun x hx => decide_eq_true fun hkey => ?_
    exact h.market_ne_of_mem_otherOrders hx hkey.2
  have hbefore := (e.orders_perm o.market).filter
    fun x => decide (¬ (SameKey x o ∧ x.market = o.market))
  rw [filter_append, hown, hother] at hbefore
  refine (e.orders_commitBook_perm o.market _).trans ?_
  exact (((e.bookOf o.market).insert_orders_perm o).append_right _).trans
    (hbefore.symm.cons o)

theorem insertOrder_orders_perm_of_fresh (h : e.WellFormed) (hfresh : ∀ x ∈ e.orders, x.id ≠ o.id) :
    (e.insertOrder o).orders.Perm (o :: e.orders) := by
  have hall : e.orders.filter (fun x => decide (¬ (SameKey x o ∧ x.market = o.market))) =
      e.orders :=
    filter_eq_self.mpr fun x hx => decide_eq_true fun hkey => hfresh x hx hkey.1.2.2.2
  have hperm := insertOrder_orders_perm h o
  rwa [hall] at hperm

theorem WellFormed.insertOrder (h : e.WellFormed) (hid : ∀ x ∈ e.orders, x.id = o.id →
    SameKey x o ∧ x.market = o.market) (hpos : 0 < o.remaining) : (e.insertOrder o).WellFormed := by
  have hperm := insertOrder_orders_perm h o
  refine ⟨?_, ?_, ?_⟩
  · rw [(hperm.map Order.id).nodup_iff, map_cons, nodup_cons]
    refine ⟨?_, h.distinct.sublist (filter_sublist.map _)⟩
    intro hmem
    obtain ⟨x, hx, hxo⟩ := mem_map.mp hmem
    obtain ⟨hx, hkey⟩ := mem_filter.mp hx
    exact of_decide_eq_true hkey (hid x hx hxo)
  · intro x hx
    rcases mem_cons.mp (hperm.mem_iff.mp hx) with rfl | hx
    · exact hpos
    · exact h.positive x (mem_of_mem_filter hx)
  · intro p hp x hx
    rcases mem_insert.mp hp with rfl | ⟨hp, -⟩
    · rcases mem_cons.mp (((e.bookOf o.market).insert_orders_perm o).mem_iff.mp hx)
        with rfl | hx
      · rfl
      · exact h.market_of_mem (mem_of_mem_filter hx)
    · exact h.market_eq p hp x hx

/-- The engine `e`, in which `o` rests, matched `o`, returned the events `es` and
became `e'`. -/
structure PlaceOutcome (e : Engine) (o : Order) (es : List MatchEvent) (e' : Engine) :
    Prop where
  wellFormed : e'.WellFormed
  from_before : ∀ x ∈ e'.orders, ∃ y ∈ e.orders,
    x = y.withRemaining x.remaining ∧ x.remaining ≤ y.remaining
  conserved : ∀ x, restingQty x e'.orders + filledQty x es = restingQty x e.orders
  events : ∀ ev ∈ es, 0 < ev.quantity ∧ ev.market = o.market ∧
    ∃ m ∈ e.orders, m.id ≠ o.id ∧ ∀ x, ev.Names x ↔ x = o.id ∨ x = m.id

theorem trialMatch_eq (e : Engine) (now : ℕ → ℕ) (o : Order) :
    e.trialMatch now o = ((e.insertOrder o).bookOf o.market).matchOrders o.market now o.id := by
  rw [insertOrder_eq, bookOf_commitBook_self]
  rfl

theorem trialMatch_outcome (h : (e.insertOrder o).WellFormed) (now : ℕ → ℕ) :
    OrderBook.MatchOutcome ((e.insertOrder o).bookOf o.market) o o.market
      (e.trialMatch now o).1 (e.trialMatch now o).2 := by
  rw [trialMatch_eq]
  refine OrderBook.matchOutcome (h.distinctIds _) (h.positiveRemaining _) ?_ o.market now
  rw [insertOrder_eq, bookOf_commitBook_self]
  exact OrderBook.mem_insert_self _ o

theorem otherOrders_insertOrder (e : Engine) (o : Order) :
    (e.insertOrder o).otherOrders o.market = e.otherOrders o.market := by
  rw [otherOrders, insertOrder_eq, Engine.commitBook, remove_insert]
  rfl

theorem otherOrders_subset (e : Engine) (market : Market) :
    ∀ x ∈ e.otherOrders market, x ∈ e.orders :=
  fun _ hx => (e.orders_perm market).mem_iff.mpr (mem_append_right _ hx)

/-- The outcome of committing the trial match of an order, given that the engine
with the order inserted is well formed. -/
theorem commitOutcome (h : (e.insertOrder o).WellFormed) (now : ℕ → ℕ) : PlaceOutcome
    (e.insertOrder o) o (e.trialMatch now o).1 (e.commitBook o.market (e.trialMatch now o).2) := by
  have hmatch := trialMatch_outcome h now
  set book := (e.trialMatch now o).2
  have hbefore := (e.insertOrder o).orders_perm o.market
  have hafter := e.orders_commitBook_perm o.market book
  rw [← otherOrders_insertOrder] at hafter
  have hids : ∀ i ∈ book.orders.map Order.id,
      i ∈ ((e.insertOrder o).bookOf o.market).orders.map Order.id := by
    intro i hi
    obtain ⟨x, hx, rfl⟩ := mem_map.mp hi
    obtain ⟨y, hy, hxy, -⟩ := hmatch.from_before x hx
    rw [hxy, Order.withRemaining_id]
    exact mem_map_of_mem hy
  refine ⟨WellFormed.commitBook ?_ ?_ ?_ ?_, ?_, ?_, ?_⟩
  · have hnodup := (hbefore.map Order.id).nodup_iff.mp h.distinct
    rw [map_append, nodup_append] at hnodup
    rw [← otherOrders_insertOrder, map_append, nodup_append]
    exact ⟨hmatch.distinct, hnodup.2.1, fun i hi j hj => hnodup.2.2 i (hids i hi) j hj⟩
  · intro x hx
    rcases mem_append.mp hx with hx | hx
    · exact hmatch.positive x hx
    · rw [← otherOrders_insertOrder] at hx
      exact h.positive x (otherOrders_subset _ _ x hx)
  · intro x hx
    obtain ⟨y, hy, hxy, -⟩ := hmatch.from_before x hx
    rw [hxy, Order.withRemaining_market]
    exact h.market_of_mem hy
  · intro p hp hne
    exact h.market_eq p (mem_insert.mpr (.inr ⟨hp, hne⟩))
  · intro x hx
    rcases mem_append.mp (hafter.mem_iff.mp hx) with hx | hx
    · obtain ⟨y, hy, hxy⟩ := hmatch.from_before x hx
      exact ⟨y, mem_orders_of_mem_bookOf hy, hxy⟩
    · exact ⟨x, otherOrders_subset _ _ x hx, rfl, le_rfl⟩
  · intro x
    rw [restingQty_perm x hafter, restingQty_perm x hbefore, restingQty_append,
      restingQty_append, ← hmatch.conserved x]
    ring
  · intro ev hev
    obtain ⟨hq, hm, m, hmem, hne, hnames⟩ := hmatch.events ev hev
    exact ⟨hq, hm, m, mem_orders_of_mem_bookOf hmem, hne, hnames⟩

theorem PlaceOutcome.congr {es : List MatchEvent} {e₁ e₂ : Engine} (h : PlaceOutcome e o es e₁)
    (heq : e₂.orderBooks = e₁.orderBooks) : PlaceOutcome e o es e₂ := by
  have horders : e₂.orders = e₁.orders := by
    rw [orders, heq]
    rfl
  obtain ⟨hwf, hfrom, hcons, hevents⟩ := h
  refine ⟨hwf.congr heq, ?_, ?_, hevents⟩
  · rwa [horders]
  · rwa [horders]

theorem placeOutcome (h : (e.insertOrder o).WellFormed) (now : ℕ → ℕ) : PlaceOutcome
    (e.insertOrder o) o ((e.placeOrder now o).2.map Prod.snd) (e.placeOrder now o).1 := by
  rw [events_placeOrder]
  exact (commitOutcome h now).congr (orderBooks_placeOrder e now o)

end Engine

end MetherCEX
