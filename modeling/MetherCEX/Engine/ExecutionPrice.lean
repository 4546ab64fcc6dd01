import MetherCEX.Lib.Run
import MetherCEX.Engine.Taker
import MetherCEX.Engine.Uncrossed

/-!
# At which price two orders trade

A fill is made at the maker's price, or at the taker's if the maker has none. Either is within the
limits of both legs, because the orders of a fill cross.
-/

namespace MetherCEX

open Engine List

section MatchLoop

variable {K : Type} [LinearOrder K]
variable {crosses : Order → Order → Bool}
variable {event : Order → Order → Price → Quantity → ℕ → MatchEvent}

/-- Every fill of the loop is one with a candidate of the passive side, at the price the
two orders give. -/
theorem matchLoop_priced (hcross : ∀ i r m r', crosses (Order.withRemaining i r)
    (Order.withRemaining m r') = crosses i m) (hevent : ∀ i r m r' p q t, event (Order.withRemaining
    i r) (Order.withRemaining m r') p q t = event i m p q t) (hqty : ∀ i m p q t,
    (event i m p q t).quantity = q) (now : ℕ → ℕ) (incoming : Order) (passive : SortedMap K Order) :
    ∀ ev ∈ (matchLoop crosses event now incoming passive).events, ∃ m ∈ passive.values, isCandidate
    crosses incoming m = true ∧ ∃ q t, ev = event incoming m (execPrice m incoming) q t := by
  refine And.right (a := Taking crosses event incoming passive
    (matchLoop crosses event now incoming passive)) ?_
  refine Loop.iterate_invariant
    (P := fun s : MatchState K => Taking crosses event incoming passive s ∧
      ∀ ev ∈ s.events, ∃ m ∈ passive.values, isCandidate crosses incoming m = true ∧
        ∃ q t, ev = event incoming m (execPrice m incoming) q t) ?_ _
    ⟨⟨rfl, fun x hx => ⟨x, hx, Order.Descends.refl x⟩, fun ev hev => absurd hev
      not_mem_nil, by simp, fun h => h, rfl⟩, nofun⟩
  rintro s s' ⟨hs, hevents⟩ h
  refine ⟨hs.step hcross hevent hqty h, fun ev hev => ?_⟩
  obtain ⟨key, maker, -, hfind, -, rfl⟩ := matchStep_eq_some h
  rcases mem_append.mp hev with hev | hev
  · exact hevents ev hev
  · -- the maker is what is left of an order of the passive side, at the same price
    have hmem := SortedMap.mem_of_find?_eq_some hfind
    have hcand : isCandidate crosses s.incoming maker = true := SortedMap.find?_some hfind
    obtain ⟨y, hy, hdesc⟩ := hs.passive_from maker (SortedMap.mem_values.mpr ⟨key, hmem⟩)
    rw [hs.incoming_eq, hdesc.1, isCandidate_rest hcross] at hcand
    refine ⟨y, hy, hcand, min s.incoming.remaining maker.remaining, now s.events.length, ?_⟩
    have hprice : execPrice maker s.incoming = execPrice y incoming := by
      rw [hs.incoming_eq, hdesc.1]
      rfl
    rw [mem_singleton.mp hev, hprice]
    nth_rewrite 1 [hs.incoming_eq]
    rw [hdesc.1]
    exact hevent incoming _ y _ _ _ _

end MatchLoop

namespace MatchEvent

def makerOf (ev : MatchEvent) (bid ask : Order) : Order :=
  match ev.takerSide with
  | .buy => ask
  | .sell => bid

/-- The event is a fill between the two orders, at a positive price that the maker asks
for and both accept. -/
structure WithinLimits (ev : MatchEvent) (bid ask : Order) : Prop where
  bid_leg : bid.side = .buy ∧ ev.bidOrderId = bid.id ∧ ev.bidUserId = bid.userId
  ask_leg : ask.side = .sell ∧ ev.askOrderId = ask.id ∧ ev.askUserId = ask.userId
  price_pos : 0 < ev.price
  maker_price : ∀ p, (ev.makerOf bid ask).price = some p → ev.price = p
  bid_limit : ∀ p, bid.price = some p → ev.price ≤ p
  ask_limit : ∀ p, ask.price = some p → p ≤ ev.price

theorem WithinLimits.congr {ev : MatchEvent} {bid ask bid' ask' : Order} (h : ev.WithinLimits
    bid ask) (hbid : bid.Descends bid') (hask : ask.Descends ask') : ev.WithinLimits bid' ask' := by
  rw [hbid.1, hask.1] at h
  obtain ⟨hbidLeg, haskLeg, hpos, hmaker, hbidLimit, haskLimit⟩ := h
  refine ⟨hbidLeg, haskLeg, hpos, fun p hp => hmaker p ?_, hbidLimit, haskLimit⟩
  unfold makerOf at hp ⊢
  cases hs : ev.takerSide <;> rw [hs] at hp <;> exact hp

end MatchEvent

def SomePrice (x y : Order) : Prop := x.price.isSome ∨ y.price.isSome

variable {maker incoming : Order}

theorem execPrice_pos (h : SomePrice maker incoming) (hmaker : ∀ p ∈ maker.price, 0 < p)
    (hincoming : ∀ p ∈ incoming.price, 0 < p) : 0 < execPrice maker incoming := by
  cases hm : maker.price with
  | some p =>
    simp only [execPrice, hm, Option.some_or, Option.getD_some]
    exact hmaker p hm
  | none =>
    cases hi : incoming.price with
    | some p =>
      simp only [execPrice, hm, hi, Option.none_or, Option.getD_some]
      exact hincoming p hi
    | none => simp [SomePrice, hm, hi] at h

theorem execPrice_of_maker {p : Price} (h : maker.price = some p) :
    execPrice maker incoming = p := by
  simp [execPrice, h]

theorem execPrice_incoming {p : Price} (hcross : PriceCrosses incoming maker)
    (hp : incoming.price = some p) :
    match incoming.side with
    | .buy => execPrice maker incoming ≤ p
    | .sell => p ≤ execPrice maker incoming := by
  cases hm : maker.price with
  | none =>
    have heq : execPrice maker incoming = p := by simp [execPrice, hm, hp]
    rw [heq]
    cases incoming.side <;> exact le_rfl
  | some q =>
    rw [execPrice_of_maker hm]
    exact hcross p q hp hm

theorem eventOf_withinLimits (market : Market) {taker : Order} {q : Quantity} {t : ℕ}
    (hside : maker.side = taker.side.opposite) (hcross : PriceCrosses taker maker)
    (hprice : SomePrice maker taker) (hmaker : ∀ p ∈ maker.price, 0 < p)
    (htaker : ∀ p ∈ taker.price, 0 < p) :
    match taker.side with
    | .buy => (eventOf market taker taker maker (execPrice maker taker) q t).WithinLimits
        taker maker
    | .sell => (eventOf market taker taker maker (execPrice maker taker) q t).WithinLimits
        maker taker := by
  have hpos := execPrice_pos hprice hmaker htaker
  have hlimit := fun p => execPrice_incoming (p := p) hcross
  cases hs : taker.side with
  | buy =>
    rw [hs] at hside hlimit
    simp only [eventOf, hs]
    exact ⟨⟨hs, rfl, rfl⟩, ⟨hside, rfl, rfl⟩, hpos, fun p hp => execPrice_of_maker hp,
      hlimit, fun p hp => (execPrice_of_maker hp).ge⟩
  | sell =>
    rw [hs] at hside hlimit
    simp only [eventOf, hs]
    exact ⟨⟨hside, rfl, rfl⟩, ⟨hs, rfl, rfl⟩, hpos, fun p hp => execPrice_of_maker hp,
      fun p hp => (execPrice_of_maker hp).le, hlimit⟩

namespace OrderBook

variable {b b' : OrderBook} {o : Order}

variable {ev : MatchEvent} {now : ℕ → ℕ} {id : OrderId} {market : Market}

theorem exists_fill_of_mem_matchOrders (hev : ev ∈ (b.matchOrders market now id).1) : ∃ taker ∈
    b.orders, ∃ maker ∈ b.ordersOn taker.side.opposite, maker.userId ≠ taker.userId ∧ PriceCrosses
    taker maker ∧ ∃ q t, ev = eventOf market taker taker maker (execPrice maker taker) q t := by
  unfold matchOrders at hev
  split at hev
  · exact nomatch hev
  · rename_i taker book hremove
    obtain ⟨-, htaker, hbook⟩ := removeOrderById_eq_some hremove
    -- an order of the opposite side of what is left was on that side before
    have hopposite : ∀ m s, m ∈ book.ordersOn s → m ∈ b.ordersOn s := by
      intro m s hm
      have hside := side_of_mem_ordersOn hm
      rw [← hside]
      exact mem_ordersOn_side (hbook m (mem_orders_of_mem_ordersOn hm))
    refine ⟨taker, htaker, ?_⟩
    split at hev
    · rename_i hs
      obtain ⟨maker, hmaker, hcand, q, t, rfl⟩ :=
        matchLoop_priced (fun _ _ _ _ => rfl) (fun _ _ _ _ _ _ _ => rfl)
          (fun _ _ _ _ _ => rfl) now taker book.asks ev hev
      obtain ⟨huser, hcross⟩ := isCandidate_eq_true.mp hcand
      rw [hs]
      refine ⟨maker, hopposite maker .sell hmaker, huser, ?_, q, t, by rw [eventOf, hs]⟩
      rw [← crossesOf_eq_true_iff, hs]
      exact hcross
    · rename_i hs
      obtain ⟨maker, hmaker, hcand, q, t, rfl⟩ :=
        matchLoop_priced (fun _ _ _ _ => rfl) (fun _ _ _ _ _ _ _ => rfl)
          (fun _ _ _ _ _ => rfl) now taker book.bids ev hev
      obtain ⟨huser, hcross⟩ := isCandidate_eq_true.mp hcand
      rw [hs]
      refine ⟨maker, hopposite maker .buy hmaker, huser, ?_, q, t, by rw [eventOf, hs]⟩
      rw [← crossesOf_eq_true_iff, hs]
      exact hcross

/-- Of two orders of different users on opposite sides, one has a price. -/
def PricedPairs (b : OrderBook) : Prop :=
  ∀ x ∈ b.orders, ∀ y ∈ b.ordersOn x.side.opposite, y.userId ≠ x.userId → SomePrice x y

theorem PricedPairs.new : OrderBook.new.PricedPairs :=
  nofun

theorem PricedPairs.of_descends (h : b.PricedPairs)
    (hfrom : ∀ x ∈ b'.orders, ∃ y ∈ b.orders, x.Descends y) : b'.PricedPairs := by
  intro x hx y hy huser
  obtain ⟨x₀, hx₀, hxeq, -⟩ := hfrom x hx
  obtain ⟨y₀, hy₀, hyeq, -⟩ := hfrom y (mem_orders_of_mem_ordersOn hy)
  have hside := side_of_mem_ordersOn hy
  rw [hxeq, hyeq] at hside huser ⊢
  refine h x₀ hx₀ y₀ ?_ huser
  rw [← show y₀.side = x₀.side.opposite from hside]
  exact mem_ordersOn_side hy₀

theorem PricedPairs.insert (h : b.PricedPairs) (ho : o.price = none → ∀ m ∈ b.ordersOn
    o.side.opposite, m.userId ≠ o.userId → m.price.isSome) : (b.insert o).PricedPairs := by
  have hpair : ∀ m ∈ b.orders, m.side = o.side.opposite → m.userId ≠ o.userId →
      SomePrice o m := by
    intro m hm hside huser
    cases hp : o.price with
    | some p => exact .inl (by rw [hp]; rfl)
    | none => exact .inr (ho hp m (hside ▸ mem_ordersOn_side hm) huser)
  intro x hx y hy huser
  have hside := side_of_mem_ordersOn hy
  have hy' := mem_of_mem_insert (mem_orders_of_mem_ordersOn hy)
  rcases mem_of_mem_insert hx with rfl | hold
  · rcases hy' with rfl | hy'
    · exact absurd rfl huser
    · exact hpair y hy' hside huser
  · rcases hy' with rfl | hy'
    · have hback : x.side = y.side.opposite := by rw [hside, Side.opposite_opposite]
      exact (hpair x hold hback (Ne.symm huser)).symm
    · exact h x hold y (hside ▸ mem_ordersOn_side hy') huser

theorem matchOrders_withinLimits (h : b.PricedPairs) (hpos : ∀ x ∈ b.orders, ∀ p ∈ x.price, 0 < p)
    (hev : ev ∈ (b.matchOrders market now id).1) :
    ∃ bid ∈ b.orders, ∃ ask ∈ b.orders, ev.WithinLimits bid ask := by
  obtain ⟨taker, htaker, maker, hmaker, huser, hcross, q, t, rfl⟩ :=
    exists_fill_of_mem_matchOrders hev
  have hmaker' := mem_orders_of_mem_ordersOn hmaker
  have hlimits := eventOf_withinLimits market (q := q) (t := t)
    (side_of_mem_ordersOn hmaker) hcross (h taker htaker maker hmaker huser).symm
    (hpos maker hmaker') (hpos taker htaker)
  cases hs : taker.side with
  | buy =>
    rw [hs] at hlimits
    exact ⟨taker, htaker, maker, hmaker', hlimits⟩
  | sell =>
    rw [hs] at hlimits
    exact ⟨maker, hmaker', taker, htaker, hlimits⟩

end OrderBook

/-- An order without a price is placed only when the orders of other users on the
opposite side of its book have one. -/
def MeetsPrices (s : EngineTrace) : EngineOp → Prop
  | .place _ o => o.price = none →
      ∀ m ∈ (s.engine.bookOf o.market).ordersOn o.side.opposite, m.userId ≠ o.userId →
        m.price.isSome
  | .cancel _ => True

instance (s : EngineTrace) (op) : Decidable (MeetsPrices s op) := by
  cases op <;> dsimp only [MeetsPrices] <;> infer_instance

/-- The prices that are given are positive, and market orders give none. -/
def GoodPrices (ops : List EngineOp) : Prop :=
  ∀ o ∈ placedOrders ops, (∀ p ∈ o.price, 0 < p) ∧ (o.orderType = .market → o.price = none)
  deriving Decidable

/-- What the run `ops` has placed and filled so far: every resting order is what is left
of a placed one, the books have priced pairs, and the events are within the limits of
placed orders. -/
structure PricedRun (ops : List EngineOp) (s : EngineTrace) : Prop where
  placed : ∀ x ∈ s.engine.orders, ∃ y ∈ placedOrders ops, x.Descends y
  pairs : ∀ market, (s.engine.bookOf market).PricedPairs
  limits : ∀ ev ∈ s.events, ∃ bid ∈ placedOrders ops, ∃ ask ∈ placedOrders ops,
    ev.WithinLimits bid ask

namespace PricedRun

variable {ops : List EngineOp} {s : EngineTrace}

theorem mem_concat {op : EngineOp} {y : Order} (hy : y ∈ placedOrders ops) :
    y ∈ placedOrders (ops ++ [op]) := by
  rw [placedOrders, filterMap_append]
  exact mem_append_left _ hy

theorem nil : PricedRun [] (EngineTrace.run []) :=
  ⟨nofun, fun _ => OrderBook.PricedPairs.new,
    nofun⟩

theorem cancel (h : PricedRun ops s) (orderId : OrderId) :
    PricedRun (ops ++ [.cancel orderId]) (s.step (.cancel orderId)) := by
  refine ⟨fun x hx => ?_, fun market => ?_, fun ev hev => ?_⟩
  · have hx : x ∈ (s.engine.cancelOrder orderId).orders := hx
    rw [orders_cancelOrder] at hx
    obtain ⟨y, hy, hxy⟩ := h.placed x (mem_of_mem_filter hx)
    exact ⟨y, mem_concat hy, hxy⟩
  · change ((s.engine.cancelOrder orderId).bookOf market).PricedPairs
    rw [bookOf_cancelOrder]
    refine (h.pairs market).of_descends fun x hx => ?_
    rw [OrderBook.orders_cancelOrder] at hx
    exact ⟨x, mem_of_mem_filter hx, Order.Descends.refl x⟩
  · obtain ⟨bid, hbid, ask, hask, hev⟩ := h.limits ev hev
    exact ⟨bid, mem_concat hbid, ask, mem_concat hask, hev⟩

theorem place (h : PricedRun ops s) {now : ℕ → ℕ} {o : Order}
    (hprices : GoodPrices (ops ++ [.place now o])) (ho : MeetsPrices s (.place now o)) :
    PricedRun (ops ++ [.place now o]) (s.step (.place now o)) := by
  set book := (s.engine.bookOf o.market).insert o with hbook
  have hself : o ∈ placedOrders (ops ++ [.place now o]) := by
    simp [placedOrders, EngineOp.placed?]
  have hplaced : ∀ x ∈ book.orders, ∃ y ∈ placedOrders (ops ++ [.place now o]),
      x.Descends y := by
    intro x hx
    rcases OrderBook.mem_of_mem_insert hx with rfl | hx
    · exact ⟨x, hself, Order.Descends.refl x⟩
    · obtain ⟨y, hy, hxy⟩ := h.placed x (mem_orders_of_mem_bookOf hx)
      exact ⟨y, mem_concat hy, hxy⟩
  have hpairs : book.PricedPairs := (h.pairs o.market).insert ho
  have hpos : ∀ x ∈ book.orders, ∀ p ∈ x.price, 0 < p := by
    intro x hx p hp
    obtain ⟨y, hy, hxy⟩ := hplaced x hx
    rw [hxy.1] at hp
    exact (hprices y hy).1 p hp
  have hleft := (book.matchOrders_provenance o.market now o.id).1
  refine ⟨fun x hx => ?_, fun market => ?_, fun ev hev => ?_⟩
  · rcases mem_orders_placeOrder hx with hx | hx
    · obtain ⟨y, hy, hxy⟩ := hleft x hx
      obtain ⟨z, hz, hyz⟩ := hplaced y hy
      exact ⟨z, hz, hxy.trans hyz⟩
    · obtain ⟨y, hy, hxy⟩ := h.placed x hx
      exact ⟨y, mem_concat hy, hxy⟩
  · change ((s.engine.placeOrder now o).1.bookOf market).PricedPairs
    by_cases hm : market = o.market
    · subst hm
      rw [bookOf, orderBooks_placeOrder, ← bookOf,
        bookOf_commitBook_self]
      exact hpairs.of_descends hleft
    · rw [bookOf, orderBooks_placeOrder, ← bookOf,
        bookOf_commitBook_of_ne _ _ hm]
      exact h.pairs market
  · rw [EngineTrace.events_step_place, events_placeOrder] at hev
    rcases mem_append.mp hev with hev | hev
    · obtain ⟨bid, hbid, ask, hask, hev⟩ := h.limits ev hev
      exact ⟨bid, mem_concat hbid, ask, mem_concat hask, hev⟩
    · obtain ⟨bid, hbid, ask, hask, hlimits⟩ := OrderBook.matchOrders_withinLimits hpairs hpos hev
      obtain ⟨bid', hbid', hb⟩ := hplaced bid hbid
      obtain ⟨ask', hask', ha⟩ := hplaced ask hask
      exact ⟨bid', hbid', ask', hask', hlimits.congr hb ha⟩

end PricedRun

theorem GoodPrices.init {ops : List EngineOp} {op : EngineOp} (h : GoodPrices (ops ++ [op])) :
    GoodPrices ops :=
  fun o ho => h o (PricedRun.mem_concat ho)

theorem pricedRun {ops : List EngineOp} (hprices : GoodPrices ops) (h : Run.Along
    EngineTrace.step MeetsPrices ⟨Engine.new, []⟩ ops) : PricedRun ops (EngineTrace.run ops) := by
  induction ops using reverseRecOn with
  | nil => exact PricedRun.nil
  | append_singleton ops op ih =>
    rw [EngineTrace.run_concat]
    obtain ⟨hbefore, hop⟩ := Run.along_concat.mp h
    cases op with
    | place now o => exact (ih hprices.init hbefore).place hprices hop
    | cancel orderId => exact (ih hprices.init hbefore).cancel orderId

/-- In every run whose orders without a price meet only orders that have one, every event
is a fill between a placed bid and a placed ask at a positive price: the maker's if it
has one, at most the bid's limit and at least the ask's. -/
theorem run_withinLimits (ops : List EngineOp) (hprices : GoodPrices ops)
    (h : Run.Along EngineTrace.step MeetsPrices ⟨Engine.new, []⟩ ops) :
    ∀ ev ∈ (EngineTrace.run ops).events, ∃ bid ∈ placedOrders ops, ∃ ask ∈ placedOrders ops,
      ev.WithinLimits bid ask :=
  (pricedRun hprices h).limits

/-- A market sell rests, and a limit buy takes it at the price of the buy; a market buy
takes a limit sell at the price of the sell. -/
def marketMakerRun : List EngineOp :=
  [.place id ⟨1, 10, "BTC_USDT", .sell, .market, none, 2, 2, 5⟩,
    .place id ⟨2, 11, "BTC_USDT", .buy, .limit, some 101, 2, 2, 6⟩,
    .place id ⟨3, 10, "BTC_USDT", .sell, .limit, some 100, 1, 1, 7⟩,
    .place id ⟨4, 11, "BTC_USDT", .buy, .market, none, 1, 1, 8⟩]

theorem marketMakerRun_withinLimits : GoodPrices marketMakerRun ∧ Run.Along EngineTrace.step
    MeetsPrices ⟨Engine.new, []⟩ marketMakerRun ∧ (EngineTrace.run marketMakerRun).events.map
    MatchEvent.price = [101, 100] ∧ ∀ ev ∈ (EngineTrace.run marketMakerRun).events, ∃ bid ∈
    placedOrders marketMakerRun, ∃ ask ∈ placedOrders marketMakerRun, ev.WithinLimits bid ask :=
  have hprices : GoodPrices marketMakerRun := by decide +kernel
  have hmeets : Run.Along EngineTrace.step MeetsPrices ⟨Engine.new, []⟩ marketMakerRun := by
    decide +kernel
  ⟨hprices, hmeets, by decide +kernel, run_withinLimits marketMakerRun hprices hmeets⟩

def marketPairRun : List EngineOp :=
  [.place id ⟨1, 10, "BTC_USDT", .buy, .market, none, 2, 2, 5⟩,
    .place id ⟨2, 11, "BTC_USDT", .sell, .market, none, 2, 2, 6⟩]

/-- The two trade at the price zero. -/
theorem marketPairRun_price :
    GoodPrices marketPairRun ∧
      (EngineTrace.run marketPairRun).events.map MatchEvent.price = [0] := by
  decide +kernel

end MetherCEX
