import MetherCEX.Engine.Reference

/-!
# Price-time priority

On every book with distinct ids and positive remainders, `match_orders` is the
reference (`matchOrders_eq_reference`). What price-time priority asks of a call
follows from the reference alone (`PriceTimeMatch`).
-/

namespace MetherCEX

open List SortedMap MatchEvent

namespace OrderBook

variable {b : OrderBook} {o : Order}

theorem ordersOn_insertRest_of_buy {incoming : Order} (h : incoming.side = .buy) :
    (b.insertRest incoming).ordersOn .sell = b.ordersOn .sell ∧
    (b.insertRest incoming).ordersOn .buy = (if 0 < incoming.remaining
    then b.bids.insert (BidKey.fromOrder incoming) incoming else b.bids).values := by
  unfold insertRest
  split_ifs
  · exact ⟨congrArg values (insert_of_buy h).2,
      congrArg values (insert_of_buy h).1⟩
  · exact ⟨rfl, rfl⟩

theorem ordersOn_insertRest_of_sell {incoming : Order} (h : incoming.side = .sell) :
    (b.insertRest incoming).ordersOn .buy = b.ordersOn .buy ∧
    (b.insertRest incoming).ordersOn .sell = (if 0 < incoming.remaining
    then b.asks.insert (AskKey.fromOrder incoming) incoming else b.asks).values := by
  unfold insertRest
  split_ifs
  · exact ⟨congrArg values (insert_of_sell h).2,
      congrArg values (insert_of_sell h).1⟩
  · exact ⟨rfl, rfl⟩

theorem matchOrders_of_bid (hid : b.DistinctIds) (hpos : b.PositiveRemaining) (ho : o ∈ b.ordersOn
    .buy) (market : Market) (now : ℕ → ℕ) : (b.matchOrders market now o.id).1 = referenceEvents b
    market now o ∧ ∀ s, (b.matchOrders market now o.id).2.ordersOn s = referenceOrdersOn b o s := by
  have hs : o.side = .buy := side_of_mem_ordersOn ho
  have hloop : GreedyResult (buyEvent market) now (eligibleMakers b o) ⟨o, b.asks, []⟩
      (b.matchBuy market now o) := by
    rw [eligibleMakers_eq, hs]
    exact matchLoop_spec (fun _ _ _ => rfl) (fun _ _ _ _ _ _ _ => rfl) o
      (fun x hx => hpos x (mem_orders_of_mem_ordersOn (s := .sell) hx)) (hid.ordersOn .sell)
  have hinc : (b.matchBuy market now o).incoming =
      o.withRemaining (referenceRest b o) := hloop.incoming
  have hside : (b.matchBuy market now o).incoming.side = .buy := by
    rw [hinc]
    exact hs
  have hrest := ordersOn_insertRest_of_buy
    (b := (b.removeBid (BidKey.fromOrder o)).afterBuy market now o) hside
  have hresult : b.matchOrders market now o.id = ((b.matchBuy market now o).events,
      ((b.removeBid (BidKey.fromOrder o)).afterBuy market now o).insertRest
        (b.matchBuy market now o).incoming) := by
    rw [matchOrders, removeOrderById_of_bid hid ho]
    simp only [hs]
    rfl
  rw [hresult]
  refine ⟨?_, fun s => ?_⟩
  · rw [referenceEvents, referenceFills, eventOf, hs]
    exact hloop.events
  · cases s with
    | buy =>
      rw [hrest.2, referenceOrdersOn, if_pos hs.symm]
      simp only [hinc]
      exact values_rest (hid.ordersOn .buy) (mem_bids_of_mem_ordersOn ho) _
    | sell =>
      rw [hrest.1, referenceOrdersOn, if_neg (by rw [hs]; decide)]
      exact hloop.passive

theorem matchOrders_of_ask (hid : b.DistinctIds) (hpos : b.PositiveRemaining) (ho : o ∈ b.ordersOn
    .sell) (market : Market) (now : ℕ → ℕ) : (b.matchOrders market now o.id).1 = referenceEvents b
    market now o ∧ ∀ s, (b.matchOrders market now o.id).2.ordersOn s = referenceOrdersOn b o s := by
  have hs : o.side = .sell := side_of_mem_ordersOn ho
  have hloop : GreedyResult (sellEvent market) now (eligibleMakers b o) ⟨o, b.bids, []⟩
      (b.matchSell market now o) := by
    rw [eligibleMakers_eq, hs]
    exact matchLoop_spec (fun _ _ _ => rfl) (fun _ _ _ _ _ _ _ => rfl) o
      (fun x hx => hpos x (mem_orders_of_mem_ordersOn (s := .buy) hx)) (hid.ordersOn .buy)
  have hinc : (b.matchSell market now o).incoming =
      o.withRemaining (referenceRest b o) := hloop.incoming
  have hside : (b.matchSell market now o).incoming.side = .sell := by
    rw [hinc]
    exact hs
  have hrest := ordersOn_insertRest_of_sell
    (b := (b.removeAsk (AskKey.fromOrder o)).afterSell market now o) hside
  have hresult : b.matchOrders market now o.id = ((b.matchSell market now o).events,
      ((b.removeAsk (AskKey.fromOrder o)).afterSell market now o).insertRest
        (b.matchSell market now o).incoming) := by
    rw [matchOrders, removeOrderById_of_ask hid ho]
    simp only [hs]
    rfl
  rw [hresult]
  refine ⟨?_, fun s => ?_⟩
  · rw [referenceEvents, referenceFills, eventOf, hs]
    exact hloop.events
  · cases s with
    | buy =>
      rw [hrest.1, referenceOrdersOn, if_neg (by rw [hs]; decide)]
      exact hloop.passive
    | sell =>
      rw [hrest.2, referenceOrdersOn, if_pos hs.symm]
      simp only [hinc]
      exact values_rest (hid.ordersOn .sell) (mem_asks_of_mem_ordersOn ho) _

/-- On a book with distinct ids and positive remainders, the engine's matching of
a resting order is the reference. -/
theorem matchOrders_eq_reference (hid : b.DistinctIds) (hpos : b.PositiveRemaining)
    (ho : o ∈ b.orders) (market : Market) (now : ℕ → ℕ) :
    (b.matchOrders market now o.id).1 = referenceEvents b market now o ∧
      ∀ s, (b.matchOrders market now o.id).2.ordersOn s = referenceOrdersOn b o s := by
  rcases mem_orders.mp ho with ho | ho
  · exact matchOrders_of_bid hid hpos ho market now
  · exact matchOrders_of_ask hid hpos ho market now

theorem mem_orders_iff_own_or_opposite (b : OrderBook) (s : Side) {x : Order} :
    x ∈ b.orders ↔ x ∈ b.ordersOn s ∨ x ∈ b.ordersOn s.opposite := by
  rw [mem_orders]
  cases s with
  | buy => exact Iff.rfl
  | sell => exact or_comm

section After

variable {b' : OrderBook} (hafter : ∀ s, b'.ordersOn s = referenceOrdersOn b o s)

include hafter

theorem ordersOn_own : b'.ordersOn o.side =
    applyFills [(o, o.remaining - referenceRest b o)] (b.ordersOn o.side) := by
  rw [hafter, referenceOrdersOn, if_pos rfl]

theorem ordersOn_opposite : b'.ordersOn o.side.opposite =
    applyFills (referenceFills b o) (b.ordersOn o.side.opposite) := by
  have hne : o.side.opposite ≠ o.side := by
    cases o.side <;> decide
  rw [hafter, referenceOrdersOn, if_neg hne]

theorem exists_of_mem_after (hpos : b.PositiveRemaining) {x : Order} (hx : x ∈ b'.orders) :
    ∃ y ∈ b.orders, x = y.withRemaining x.remaining ∧ x.remaining ≤ y.remaining := by
  rcases (mem_orders_iff_own_or_opposite b' o.side).mp hx with hx | hx
  · rw [ordersOn_own hafter] at hx
    obtain ⟨y, hy, ⟨rfl, -⟩ | ⟨f, hf, -, -, rfl⟩⟩ := exists_of_mem_applyFills hx
    · exact ⟨x, mem_orders_of_mem_ordersOn hy, rfl, le_rfl⟩
    · rw [mem_singleton.mp hf]
      exact ⟨y, mem_orders_of_mem_ordersOn hy, rfl,
        sub_le_self _ (sub_nonneg.mpr (referenceRest_le hpos o))⟩
  · rw [ordersOn_opposite hafter] at hx
    obtain ⟨y, hy, ⟨rfl, -⟩ | ⟨f, hf, -, -, rfl⟩⟩ := exists_of_mem_applyFills hx
    · exact ⟨x, mem_orders_of_mem_ordersOn hy, rfl, le_rfl⟩
    · exact ⟨y, mem_orders_of_mem_ordersOn hy, rfl,
        sub_le_self _ (referenceFills_pos hpos hf).1.le⟩

theorem rest_of_mem_after (hid : b.DistinctIds) (ho : o ∈ b.orders) {x : Order} (hx : x ∈ b'.orders)
    (hxo : x.id = o.id) : x = o.withRemaining (referenceRest b o) ∧ 0 < referenceRest b o := by
  rcases (mem_orders_iff_own_or_opposite b' o.side).mp hx with hx | hx
  · rw [ordersOn_own hafter] at hx
    obtain ⟨y, hy, ⟨rfl, hnot⟩ | ⟨f, hf, hfy, hpos, rfl⟩⟩ := exists_of_mem_applyFills hx
    · exact absurd hxo.symm (hnot _ (mem_singleton.mpr rfl))
    · obtain rfl := mem_singleton.mp hf
      have hyo : y = o := hid.eq_of_id_eq (mem_orders_of_mem_ordersOn hy) ho hxo
      subst hyo
      rw [sub_sub_cancel] at hpos
      exact ⟨by rw [sub_sub_cancel], hpos⟩
  · rw [ordersOn_opposite hafter] at hx
    have hin := (applyFills_ids_sublist _ _).subset (mem_map_of_mem hx)
    obtain ⟨m, hm, hmx⟩ := mem_map.mp hin
    exact absurd (hmx.trans hxo) (id_ne_of_mem_opposite hid ho hm)

theorem not_mem_after_of_full (hid : b.DistinctIds) {f : Order × Quantity} (hf : f ∈
    referenceFills b o) (hfull : f.2 = f.1.remaining) : ∀ x ∈ b'.orders, x.id ≠ f.1.id := by
  have hm := (mem_eligibleMakers.mp (mem_of_mem_referenceFills hf)).1
  intro x hx
  rcases (mem_orders_iff_own_or_opposite b' o.side).mp hx with hx | hx
  · rw [ordersOn_own hafter] at hx
    have hin := (applyFills_ids_sublist _ _).subset (mem_map_of_mem hx)
    obtain ⟨y, hy, hyx⟩ := mem_map.mp hin
    intro hxf
    have hym := hid.eq_of_id_eq (mem_orders_of_mem_ordersOn hy)
      (mem_orders_of_mem_ordersOn hm) (hyx.trans hxf)
    have hside := side_of_mem_ordersOn hy
    rw [hym, side_of_mem_ordersOn hm] at hside
    cases hs : o.side <;> rw [hs] at hside <;> cases hside
  · rw [ordersOn_opposite hafter] at hx
    exact not_mem_applyFills_of_full (hid.ordersOn _) (referenceFills_ids_nodup hid o) hf hm
      (by simp [hfull]) x hx

theorem mem_after_of_not_filled {x : Order} (hx : x ∈ b.orders) (hxo : x.id ≠ o.id)
    (hnot : ∀ f ∈ referenceFills b o, f.1.id ≠ x.id) : x ∈ b'.orders := by
  rw [mem_orders_iff_own_or_opposite b' o.side, ordersOn_own hafter, ordersOn_opposite hafter]
  rcases (mem_orders_iff_own_or_opposite b o.side).mp hx with hx | hx
  · refine .inl (mem_applyFills_of_not_filled hx fun f hf => ?_)
    rw [mem_singleton.mp hf]
    exact Ne.symm hxo
  · exact .inr (mem_applyFills_of_not_filled hx hnot)

end After

/-- The taker, the maker and the legs of an event, for the incoming order `o` and
the resting order `m`. -/
structure Legs (o m : Order) (e : MatchEvent) : Prop where
  taker : e.takerOrderId = o.id ∧ e.takerUserId = o.userId ∧ e.takerSide = o.side
  maker : e.makerOrderId = m.id ∧ e.makerUserId = m.userId
  buy : o.side = .buy → e.bidOrderId = o.id ∧ e.bidUserId = o.userId ∧
    e.askOrderId = m.id ∧ e.askUserId = m.userId
  sell : o.side = .sell → e.bidOrderId = m.id ∧ e.bidUserId = m.userId ∧
    e.askOrderId = o.id ∧ e.askUserId = o.userId
  users : e.bidUserId ≠ e.askUserId

/-- The call on the book `b` for its order `o` returned the events `es` and left
the book `b'` as price-time priority asks. -/
structure PriceTimeMatch (b : OrderBook) (o : Order) (market : Market) (now : ℕ → ℕ)
    (es : List MatchEvent) (b' : OrderBook) : Prop where
  events_eq : es = referenceEvents b market now o
  orders_eq : ∀ s, b'.ordersOn s = referenceOrdersOn b o s
  makers_prefix : es.map makerOrderId <+: (eligibleMakers b o).map Order.id
  makers_nodup : (es.map makerOrderId).Nodup
  full_before_last : ∀ pre e e' post, es = pre ++ e :: e' :: post →
    ∃ m ∈ eligibleMakers b o, m.id = e.makerOrderId ∧ e.quantity = m.remaining ∧
      ∀ x ∈ b'.orders, x.id ≠ m.id
  rest_consumed_all : ∀ x ∈ b'.orders, x.id = o.id →
    ∀ m ∈ eligibleMakers b o, ∀ y ∈ b'.orders, y.id ≠ m.id
  rest_keeps_key : ∀ x ∈ b'.orders, x.id = o.id →
    x = o.withRemaining (referenceRest b o)
  others_untouched : ∀ x ∈ b.orders, x.id ≠ o.id →
    x.id ∉ es.map makerOrderId → x ∈ b'.orders
  legs : ∀ e ∈ es, ∃ m ∈ b.ordersOn o.side.opposite, Legs o m e

theorem eventOf_makerOrderId (market : Market) (incoming maker : Order) (p : Price) (q : Quantity)
    (t : ℕ) : (eventOf market incoming incoming maker p q t).makerOrderId = maker.id := by
  unfold eventOf
  cases incoming.side <;> rfl

theorem legs_eventOf (market : Market) {o m : Order} (p : Price) (q : Quantity) (t : ℕ)
    (h : m.userId ≠ o.userId) : Legs o m (eventOf market o o m p q t) := by
  unfold eventOf
  cases hs : o.side
  · exact ⟨⟨rfl, rfl, hs.symm⟩, ⟨rfl, rfl⟩, fun _ => ⟨rfl, rfl, rfl, rfl⟩,
      fun hsell => absurd (hs.symm.trans hsell) (by decide), Ne.symm h⟩
  · exact ⟨⟨rfl, rfl, hs.symm⟩, ⟨rfl, rfl⟩,
      fun hbuy => absurd (hs.symm.trans hbuy) (by decide), fun _ => ⟨rfl, rfl, rfl, rfl⟩, h⟩

/-- Price-time priority: the call is the reference, so the makers are a prefix of
the eligible ones, all but the last are filled completely, and the rest of the
incoming order, if any, rests under its own key after every eligible maker was
consumed. -/
theorem matchOrders_priceTimeMatch (b : OrderBook) (hid : b.DistinctIds)
    (hpos : b.PositiveRemaining) (o : Order) (ho : o ∈ b.orders) (market : Market)
    (now : ℕ → ℕ) :
    PriceTimeMatch b o market now (b.matchOrders market now o.id).1
      (b.matchOrders market now o.id).2 := by
  obtain ⟨hevents, hafter⟩ := matchOrders_eq_reference hid hpos ho market now
  have hmakers : (b.matchOrders market now o.id).1.map makerOrderId =
      (referenceFills b o).map fun f => f.1.id := by
    rw [hevents]
    exact map_fillEvents 0 fun _ _ _ => eventOf_makerOrderId ..
  refine ⟨hevents, hafter, ?_, ?_, ?_, ?_, ?_, ?_, ?_⟩
  · have hprefix := (GreedyFill.fills_prefix Order.remaining o.remaining
      (eligibleMakers b o)).map Order.id
    rw [map_map] at hprefix
    rw [hmakers]
    exact hprefix
  · rw [hmakers]
    exact referenceFills_ids_nodup hid o
  · intro pre e e' post hes
    rw [hevents] at hes
    obtain ⟨fpre, f, fpost, t, k, hfs, -, rfl, hpost⟩ := fillEvents_split hes
    have hf : f ∈ referenceFills b o := by
      rw [hfs]
      simp
    -- another event follows, so another fill does
    have hfull : f.2 = f.1.remaining := by
      cases fpost with
      | nil => exact absurd hpost (by simp [fillEvents])
      | cons f' fpost => exact GreedyFill.full_of_append hfs
    exact ⟨f.1, mem_of_mem_referenceFills hf, (eventOf_makerOrderId ..).symm,
      (eventOf_quantity ..).trans hfull, not_mem_after_of_full hafter hid hf hfull⟩
  · intro x hx hxo m hm
    -- something is left over, so the fills are all the eligible makers in full
    have hopen := (rest_of_mem_after hafter hid ho hx hxo).2
    have hf : (m, m.remaining) ∈ referenceFills b o := by
      rw [referenceFills, GreedyFill.fills_of_leftover_pos hopen]
      exact mem_map_of_mem (f := fun a : Order => (a, a.remaining)) hm
    exact not_mem_after_of_full hafter hid hf rfl
  · exact fun x hx hxo => (rest_of_mem_after hafter hid ho hx hxo).1
  · intro x hx hxo hnot
    rw [hmakers] at hnot
    exact mem_after_of_not_filled hafter hx hxo fun f hf hfx =>
      hnot (mem_map.mpr ⟨f, hf, hfx⟩)
  · intro e he
    rw [hevents] at he
    obtain ⟨f, hf, t, rfl⟩ := mem_referenceEvents he
    obtain ⟨hm, huser, -⟩ := mem_eligibleMakers.mp (mem_of_mem_referenceFills hf)
    exact ⟨f.1, hm, legs_eventOf market _ _ t huser⟩

def crossedBook : OrderBook :=
  ((OrderBook.new.insert ⟨1, 10, "BTC_USDT", .sell, .limit, some 100, 2, 2, 5⟩).insert
    ⟨2, 11, "BTC_USDT", .sell, .limit, some 99, 1, 1, 6⟩).insert
      ⟨3, 12, "BTC_USDT", .buy, .limit, some 100, 2, 2, 7⟩

theorem crossedBook_priceTimeMatch :
    crossedBook.DistinctIds ∧ crossedBook.PositiveRemaining ∧
      PriceTimeMatch crossedBook ⟨3, 12, "BTC_USDT", .buy, .limit, some 100, 2, 2, 7⟩
        "BTC_USDT" id (crossedBook.matchOrders "BTC_USDT" id 3).1
        (crossedBook.matchOrders "BTC_USDT" id 3).2 ∧
      (crossedBook.matchOrders "BTC_USDT" id 3).1.map makerOrderId = [2, 1] :=
  ⟨by decide +kernel, by decide +kernel,
    matchOrders_priceTimeMatch crossedBook (by decide +kernel) (by decide +kernel) _
      (by decide +kernel) "BTC_USDT" id, by decide +kernel⟩

end OrderBook

end MetherCEX
