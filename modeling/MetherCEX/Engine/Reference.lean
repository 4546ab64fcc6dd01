import MetherCEX.Engine.MatchSpec

/-!
# The reference for matching

What `match_orders` is for: take the orders of other users on the opposite side whose price
crosses the incoming one, sort them by price, time and id, and fill the incoming order greedily in
this order.
-/

namespace MetherCEX

open List GreedyFill

/-- A price of the side `s` is better than another; a market price is never. -/
def BetterPrice : Side → Option Price → Option Price → Prop
  | .buy, some p, some q => q < p
  | .sell, some p, some q => p < q
  | _, some _, none => True
  | _, none, _ => False

instance (s : Side) (p q : Option Price) : Decidable (BetterPrice s p q) := by
  dsimp only [BetterPrice]
  split <;> infer_instance

/-- The order `a` of the side `s` is matched no later than `b`: better price
first, then earlier, then the smaller id. -/
def Precedes (s : Side) (a b : Order) : Prop :=
  BetterPrice s a.price b.price ∨ a.price = b.price ∧
    (a.createdAt < b.createdAt ∨ a.createdAt = b.createdAt ∧ a.id ≤ b.id)
  deriving Decidable

/-- The price of the incoming order reaches the price of a resting one; a market
price on either leg reaches every price. -/
def PriceCrosses (incoming maker : Order) : Prop :=
  ∀ p q, incoming.price = some p → maker.price = some q →
    match incoming.side with
    | .buy => q ≤ p
    | .sell => p ≤ q

/-- The crossing test of the loop that matches an incoming order of a side. -/
def crossesOf : Side → Order → Order → Bool
  | .buy => priceBuyCrosses
  | .sell => priceSellCrosses

theorem crossesOf_eq_true_iff (incoming maker : Order) :
    crossesOf incoming.side incoming maker = true ↔ PriceCrosses incoming maker := by
  unfold PriceCrosses
  cases hs : incoming.side <;> cases hp : incoming.price <;> cases hq : maker.price <;>
    simp [crossesOf, priceBuyCrosses, priceSellCrosses, hp, hq]

instance (incoming maker : Order) : Decidable (PriceCrosses incoming maker) :=
  decidable_of_iff _ (crossesOf_eq_true_iff incoming maker)

def eligibleMakers (b : OrderBook) (incoming : Order) : List Order :=
  ((b.ordersOn incoming.side.opposite).filter fun m =>
    decide (m.userId ≠ incoming.userId ∧ PriceCrosses incoming m)).insertionSort
      (Precedes incoming.side.opposite)

def referenceFills (b : OrderBook) (incoming : Order) : List (Order × Quantity) :=
  fills Order.remaining incoming.remaining (eligibleMakers b incoming)

def referenceRest (b : OrderBook) (incoming : Order) : Quantity :=
  leftover Order.remaining incoming.remaining (eligibleMakers b incoming)

def eventOf (market : Market) (incoming : Order) :
    Order → Order → Price → Quantity → ℕ → MatchEvent :=
  match incoming.side with
  | .buy => buyEvent market
  | .sell => sellEvent market

def referenceEvents (b : OrderBook) (market : Market) (now : ℕ → ℕ) (incoming : Order) :
    List MatchEvent :=
  fillEvents (eventOf market incoming) now incoming (referenceFills b incoming) 0

/-- A side of the book after the reference: the makers lose what they gave, the
incoming order what it got. -/
def referenceOrdersOn (b : OrderBook) (incoming : Order) (s : Side) : List Order :=
  if s = incoming.side then
    applyFills [(incoming, incoming.remaining - referenceRest b incoming)] (b.ordersOn s)
  else applyFills (referenceFills b incoming) (b.ordersOn s)

theorem precedes_of_askKey_lt {a b : Order}
    (h : AskKey.fromOrder a < AskKey.fromOrder b) : Precedes .sell a b := by
  rw [PriceKey.lt_iff_cmp] at h
  unfold Precedes
  cases hp : a.price <;> cases hq : b.price <;>
    simp only [AskKey.fromOrder, PriceKey.cmp, hp, hq, Ordering.then_eq_lt,
      Ordering.then_eq_eq, compare_lt_iff_lt, compare_eq_iff_eq, BetterPrice] at h ⊢ <;>
    grind

theorem precedes_of_bidKey_lt {a b : Order}
    (h : BidKey.fromOrder a < BidKey.fromOrder b) : Precedes .buy a b := by
  rw [PriceKey.lt_iff_cmp] at h
  unfold Precedes
  cases hp : a.price <;> cases hq : b.price <;>
    simp only [BidKey.fromOrder, PriceKey.cmp, hp, hq, Option.map, Ordering.then_eq_lt,
      Ordering.then_eq_eq, compare_lt_iff_lt, compare_eq_iff_eq, BetterPrice,
      OrderDual.toDual_lt_toDual, OrderDual.toDual_inj] at h ⊢ <;>
    grind

theorem OrderBook.ordersOn_sorted (b : OrderBook) (s : Side) :
    (b.ordersOn s).Pairwise (Precedes s) := by
  cases s with
  | buy =>
    refine pairwise_map.mpr (b.bids.sorted.imp_of_mem fun hx hy h => ?_)
    rw [(b.bids_keyed _ hx).1, (b.bids_keyed _ hy).1] at h
    exact precedes_of_bidKey_lt h
  | sell =>
    refine pairwise_map.mpr (b.asks.sorted.imp_of_mem fun hx hy h => ?_)
    rw [(b.asks_keyed _ hx).1, (b.asks_keyed _ hy).1] at h
    exact precedes_of_askKey_lt h

/-- The makers of the reference are the candidates of the loop, in the order in
which the side holds them. -/
theorem eligibleMakers_eq (b : OrderBook) (incoming : Order) :
    eligibleMakers b incoming = (b.ordersOn incoming.side.opposite).filter
      (isCandidate (crossesOf incoming.side) incoming) := by
  have hfilter : ((b.ordersOn incoming.side.opposite).filter fun m =>
      decide (m.userId ≠ incoming.userId ∧ PriceCrosses incoming m)) =
        (b.ordersOn incoming.side.opposite).filter
          (isCandidate (crossesOf incoming.side) incoming) := by
    refine filter_congr fun m _ => ?_
    rw [Bool.eq_iff_iff, isCandidate_eq_true, crossesOf_eq_true_iff, decide_eq_true_iff]
  rw [eligibleMakers, hfilter]
  exact ((b.ordersOn_sorted _).filter _).insertionSort_eq

namespace OrderBook

variable {b : OrderBook} {o : Order}

def DistinctIds (b : OrderBook) : Prop := (b.orders.map Order.id).Nodup
  deriving Decidable

def PositiveRemaining (b : OrderBook) : Prop := ∀ o ∈ b.orders, 0 < o.remaining
  deriving Decidable

theorem DistinctIds.ordersOn (h : b.DistinctIds) (s : Side) :
    ((b.ordersOn s).map Order.id).Nodup := by
  rw [DistinctIds, orders, map_append] at h
  cases s with
  | buy => exact (nodup_append.mp h).1
  | sell => exact (nodup_append.mp h).2.1

theorem DistinctIds.eq_of_id_eq (h : b.DistinctIds) {x y : Order} (hx : x ∈ b.orders)
    (hy : y ∈ b.orders) (hid : x.id = y.id) : x = y :=
  List.inj_on_of_nodup_map h hx hy hid

theorem removeOrderById_of_bid (h : b.DistinctIds) (ho : o ∈ b.ordersOn .buy) :
    b.removeOrderById o.id = some (o, b.removeBid (BidKey.fromOrder o)) := by
  rw [removeOrderById, find?_id (h.ordersOn .buy) (mem_bids_of_mem_ordersOn ho)]

theorem removeOrderById_of_ask (h : b.DistinctIds) (ho : o ∈ b.ordersOn .sell) :
    b.removeOrderById o.id = some (o, b.removeAsk (AskKey.fromOrder o)) := by
  have hbids : b.bids.find? (fun x => decide (x.id = o.id)) = none := by
    rw [SortedMap.find?_eq_none]
    intro x hx
    have hne : x ≠ o := by
      rintro rfl
      have := side_of_mem_ordersOn (s := .buy) hx
      rw [side_of_mem_ordersOn ho] at this
      cases this
    have hxb : x ∈ b.orders := mem_orders_of_mem_ordersOn (s := .buy) hx
    simpa using fun hid => hne (h.eq_of_id_eq hxb (mem_orders_of_mem_ordersOn ho) hid)
  rw [removeOrderById, hbids, find?_id (h.ordersOn .sell) (mem_asks_of_mem_ordersOn ho)]

theorem mem_eligibleMakers {m : Order} : m ∈ eligibleMakers b o ↔
    m ∈ b.ordersOn o.side.opposite ∧ m.userId ≠ o.userId ∧ PriceCrosses o m := by
  rw [eligibleMakers, mem_insertionSort, mem_filter, decide_eq_true_iff]

theorem eligibleMakers_ids_nodup (hid : b.DistinctIds) (o : Order) :
    ((eligibleMakers b o).map Order.id).Nodup := by
  rw [eligibleMakers_eq]
  exact (hid.ordersOn _).sublist (filter_sublist.map _)

theorem id_ne_of_mem_opposite (hid : b.DistinctIds) (ho : o ∈ b.orders) {m : Order}
    (hm : m ∈ b.ordersOn o.side.opposite) : m.id ≠ o.id := by
  intro h
  have hmo := hid.eq_of_id_eq (mem_orders_of_mem_ordersOn hm) ho h
  have hside := side_of_mem_ordersOn hm
  rw [hmo] at hside
  cases hs : o.side <;> rw [hs] at hside <;> cases hside

theorem mem_of_mem_referenceFills {f : Order × Quantity} (hf : f ∈ referenceFills b o) :
    f.1 ∈ eligibleMakers b o :=
  ( fills_prefix _ _ _).subset (mem_map_of_mem hf)

theorem referenceFills_ids_nodup (hid : b.DistinctIds) (o : Order) :
    ((referenceFills b o).map fun f => f.1.id).Nodup := by
  have hprefix := (( fills_prefix Order.remaining o.remaining
    (eligibleMakers b o)).map Order.id).sublist
  rw [map_map] at hprefix
  exact (eligibleMakers_ids_nodup hid o).sublist hprefix

theorem referenceFills_pos (hpos : b.PositiveRemaining) {f : Order × Quantity}
    (hf : f ∈ referenceFills b o) : 0 < f.2 ∧ f.2 ≤ f.1.remaining :=
  fills_pos
    (fun m hm => hpos m (mem_orders_of_mem_ordersOn (mem_eligibleMakers.mp hm).1)) _ f hf

theorem sum_referenceFills (b : OrderBook) (o : Order) :
    ((referenceFills b o).map Prod.snd).sum = o.remaining - referenceRest b o :=
  eq_sub_of_add_eq (sum_fills_add_leftover _ _ _)

theorem referenceRest_le (hpos : b.PositiveRemaining) (o : Order) :
    referenceRest b o ≤ o.remaining := by
  have hsum : 0 ≤ ((referenceFills b o).map Prod.snd).sum := by
    apply sum_nonneg
    intro q hq
    obtain ⟨f, hf, rfl⟩ := mem_map.mp hq
    exact (referenceFills_pos hpos hf).1.le
  rw [sum_referenceFills] at hsum
  exact sub_nonneg.mp hsum

theorem eventOf_names
    (market : Market) (incoming maker : Order) (p : Price) (q : Quantity) (t : ℕ) (x : OrderId) :
    (eventOf market incoming incoming maker p q t).Names x ↔ x = incoming.id ∨ x = maker.id := by
  unfold eventOf MatchEvent.Names
  cases incoming.side
  · simp [buyEvent, eq_comm]
  · simp [sellEvent, eq_comm, or_comm]

theorem eventOf_quantity (market : Market) (incoming maker : Order) (p : Price)
    (q : Quantity) (t : ℕ) : (eventOf market incoming incoming maker p q t).quantity = q := by
  unfold eventOf
  cases incoming.side <;> rfl

theorem filledQty_fillEvents (market : Market) (now : ℕ → ℕ) (incoming : Order) (fs : List
    (Order × Quantity)) (n : ℕ) (x : OrderId) : filledQty x (fillEvents (eventOf market incoming)
    now incoming fs n) = if x = incoming.id then (fs.map Prod.snd).sum else givenQty x fs := by
  induction fs generalizing n with
  | nil => simp [fillEvents, givenQty]
  | cons f fs ih =>
    obtain ⟨maker, q⟩ := f
    rw [fillEvents_cons, ← singleton_append, filledQty_append, filledQty_singleton,
      ih (n + 1), eventOf_quantity]
    simp only [eventOf_names]
    by_cases hx : x = incoming.id
    · simp [hx]
    · by_cases hxm : maker.id = x
      · simp [givenQty, hx, hxm, eq_comm]
      · simp [givenQty, hx, hxm, Ne.symm hxm]

theorem mem_referenceEvents
    {market : Market} {now : ℕ → ℕ} {e : MatchEvent} (he : e ∈ referenceEvents b market now o) :
    ∃ f ∈ referenceFills b o, ∃ t, e = eventOf market o o f.1 (execPrice f.1 o) f.2 t := by
  obtain ⟨⟨f, i⟩, hf, rfl⟩ := mem_map.mp he
  exact ⟨f, List.fst_mem_of_mem_zipIdx hf, now i, rfl⟩

end OrderBook

end MetherCEX
