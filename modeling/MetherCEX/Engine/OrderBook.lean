import MetherCEX.Engine.MatchLoop

/-!
# The order book of one market

`OrderBook` holds the bids and the asks of one market in priority order
(`orderbook.rs`). A side is keyed by its own orders: every entry sits under the
key of its order, and on the side the order has. Both facts are fields of the
structure, so a book in which an order is misplaced cannot be built.
-/

namespace MetherCEX

structure OrderBook where
  bids : SortedMap BidKey Order
  asks : SortedMap AskKey Order
  bids_keyed : KeyedBy BidKey.fromOrder .buy bids
  asks_keyed : KeyedBy AskKey.fromOrder .sell asks

/-- The bids and the asks in priority order, without their keys. -/
structure OrderBookSnapshot where
  bids : List Order
  asks : List Order
  deriving DecidableEq

def Side.opposite : Side → Side
  | .buy => .sell
  | .sell => .buy

namespace OrderBook

def new : OrderBook where
  bids := .empty
  asks := .empty
  bids_keyed := by simp [KeyedBy]
  asks_keyed := by simp [KeyedBy]

/-- Stores an order on its side under its priority key, without matching. -/
def insert (b : OrderBook) (o : Order) : OrderBook :=
  match h : o.side with
  | .buy =>
    { b with
      bids := b.bids.insert (BidKey.fromOrder o) o
      bids_keyed := b.bids_keyed.insert rfl h }
  | .sell =>
    { b with
      asks := b.asks.insert (AskKey.fromOrder o) o
      asks_keyed := b.asks_keyed.insert rfl h }

def snapshot (b : OrderBook) : OrderBookSnapshot := ⟨b.bids.values, b.asks.values⟩

def removeBid (b : OrderBook) (key : BidKey) : OrderBook :=
  { b with bids := b.bids.remove key, bids_keyed := b.bids_keyed.remove key }

def removeAsk (b : OrderBook) (key : AskKey) : OrderBook :=
  { b with asks := b.asks.remove key, asks_keyed := b.asks_keyed.remove key }

/-- Takes the first order with the id out of the book, bids before asks. -/
def removeOrderById (b : OrderBook) (orderId : OrderId) : Option (Order × OrderBook) :=
  match b.bids.find? fun o => decide (o.id = orderId) with
  | some (key, o) => some (o, b.removeBid key)
  | none =>
    match b.asks.find? fun o => decide (o.id = orderId) with
    | some (key, o) => some (o, b.removeAsk key)
    | none => none

def matchBuy (b : OrderBook) (market : Market) (now : ℕ → ℕ) (incoming : Order) :
    MatchState AskKey :=
  matchLoop priceBuyCrosses (buyEvent market) now incoming b.asks

def matchSell (b : OrderBook) (market : Market) (now : ℕ → ℕ) (incoming : Order) :
    MatchState BidKey :=
  matchLoop priceSellCrosses (sellEvent market) now incoming b.bids

def afterBuy (b : OrderBook) (market : Market) (now : ℕ → ℕ) (incoming : Order) :
    OrderBook :=
  { b with
    asks := (b.matchBuy market now incoming).passive
    asks_keyed := matchLoop_keyed (fun _ _ => rfl) incoming b.asks_keyed }

def afterSell (b : OrderBook) (market : Market) (now : ℕ → ℕ) (incoming : Order) :
    OrderBook :=
  { b with
    bids := (b.matchSell market now incoming).passive
    bids_keyed := matchLoop_keyed (fun _ _ => rfl) incoming b.bids_keyed }

/-- Puts the remainder of the incoming order, if any, back on its own side. -/
def insertRest (b : OrderBook) (incoming : Order) : OrderBook :=
  if 0 < incoming.remaining then b.insert incoming else b

/-- Matches the order with the given id, which is the taker, against the
opposite side. -/
def matchOrders (b : OrderBook) (market : Market) (now : ℕ → ℕ)
    (incomingOrderId : OrderId) : List MatchEvent × OrderBook :=
  match b.removeOrderById incomingOrderId with
  | none => ([], b)
  | some (incoming, book) =>
    match incoming.side with
    | .buy =>
      let s := book.matchBuy market now incoming
      (s.events, (book.afterBuy market now incoming).insertRest s.incoming)
    | .sell =>
      let s := book.matchSell market now incoming
      (s.events, (book.afterSell market now incoming).insertRest s.incoming)

def ordersOn (b : OrderBook) : Side → List Order
  | .buy => b.bids.values
  | .sell => b.asks.values

def orders (b : OrderBook) : List Order := b.ordersOn .buy ++ b.ordersOn .sell

def cancelOrder (b : OrderBook) (orderId : OrderId) : OrderBook where
  bids := b.bids.retain fun o => decide (o.id ≠ orderId)
  asks := b.asks.retain fun o => decide (o.id ≠ orderId)
  bids_keyed := b.bids_keyed.retain _
  asks_keyed := b.asks_keyed.retain _

@[simp] theorem orders_new : new.orders = [] := rfl

variable {o : Order} {b : OrderBook}

theorem insert_of_buy (h : o.side = .buy) :
    (b.insert o).bids = b.bids.insert (BidKey.fromOrder o) o ∧ (b.insert o).asks = b.asks := by
  unfold insert
  split
  · exact ⟨rfl, rfl⟩
  · rename_i h'
    rw [h] at h'
    cases h'

theorem insert_of_sell (h : o.side = .sell) :
    (b.insert o).asks = b.asks.insert (AskKey.fromOrder o) o ∧ (b.insert o).bids = b.bids := by
  unfold insert
  split
  · rename_i h'
    rw [h] at h'
    cases h'
  · exact ⟨rfl, rfl⟩

theorem mem_orders : o ∈ b.orders ↔ o ∈ b.ordersOn .buy ∨ o ∈ b.ordersOn .sell :=
  List.mem_append

theorem mem_bids_of_mem_ordersOn (h : o ∈ b.ordersOn .buy) :
    (BidKey.fromOrder o, o) ∈ b.bids.entries := by
  obtain ⟨k, hk⟩ := SortedMap.mem_values.mp h
  rw [← (b.bids_keyed _ hk).1]
  exact hk

theorem mem_asks_of_mem_ordersOn (h : o ∈ b.ordersOn .sell) :
    (AskKey.fromOrder o, o) ∈ b.asks.entries := by
  obtain ⟨k, hk⟩ := SortedMap.mem_values.mp h
  rw [← (b.asks_keyed _ hk).1]
  exact hk

theorem side_of_mem_ordersOn {s : Side} (h : o ∈ b.ordersOn s) : o.side = s := by
  cases s with
  | buy => exact (b.bids_keyed _ (mem_bids_of_mem_ordersOn h)).2
  | sell => exact (b.asks_keyed _ (mem_asks_of_mem_ordersOn h)).2

theorem mem_ordersOn_side (h : o ∈ b.orders) : o ∈ b.ordersOn o.side := by
  rcases mem_orders.mp h with h | h
  · rw [side_of_mem_ordersOn h]
    exact h
  · rw [side_of_mem_ordersOn h]
    exact h

theorem mem_orders_of_mem_ordersOn {s : Side} (h : o ∈ b.ordersOn s) : o ∈ b.orders := by
  cases s with
  | buy => exact mem_orders.mpr (.inl h)
  | sell => exact mem_orders.mpr (.inr h)

@[simp] theorem ordersOn_cancelOrder (b : OrderBook) (orderId : OrderId) (s : Side) : (b.cancelOrder
    orderId).ordersOn s = (b.ordersOn s).filter fun o => decide (o.id ≠ orderId) := by
  cases s <;> exact SortedMap.values_retain _ _

@[simp] theorem orders_cancelOrder (b : OrderBook) (orderId : OrderId) :
    (b.cancelOrder orderId).orders = b.orders.filter fun o => decide (o.id ≠ orderId) := by
  simp [orders]

end OrderBook

end MetherCEX
