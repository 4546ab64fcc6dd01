import MetherCEX.Engine.Conservation

/-!
# No two users are crossed

Own orders are skipped by the matching, so the best bid and the best ask of a book may cross. What
the engine keeps is that no resting order crosses the order of another user.
-/

namespace MetherCEX

open SortedMap

theorem not_priceCrosses_iff {x y : Order} : ¬ PriceCrosses x y ↔
    ∃ p q, x.price = some p ∧ y.price = some q ∧
      match x.side with
      | .buy => p < q
      | .sell => q < p := by
  unfold PriceCrosses
  cases x.side <;> simp

theorem priceCrosses_symm {x y : Order} (hside : y.side = x.side.opposite) :
    PriceCrosses x y ↔ PriceCrosses y x := by
  unfold PriceCrosses
  rw [hside]
  cases x.side with
  | buy | sell => exact ⟨fun h p q hp hq => h q p hq hp, fun h p q hp hq => h q p hq hp⟩

@[simp] theorem Side.opposite_opposite (s : Side) : s.opposite.opposite = s := by
  cases s <;> rfl

theorem PriceCrosses.congr {x y x' y' : Order} (h : PriceCrosses x y) (hside : x'.side = x.side)
    (hx : x'.price = x.price) (hy : y'.price = y.price) : PriceCrosses x' y' := by
  unfold PriceCrosses at h ⊢
  rwa [hside, hx, hy]

namespace OrderBook

variable {b b' : OrderBook} {o : Order}

def Uncrossed (b : OrderBook) : Prop :=
  ∀ x ∈ b.orders, ∀ y ∈ b.ordersOn x.side.opposite, y.userId ≠ x.userId →
    ¬ PriceCrosses x y

theorem Uncrossed.new : OrderBook.new.Uncrossed :=
  nofun

theorem Uncrossed.cancelOrder (h : b.Uncrossed) (orderId : OrderId) :
    (b.cancelOrder orderId).Uncrossed := by
  intro x hx y hy huser
  rw [orders_cancelOrder] at hx
  rw [ordersOn_cancelOrder] at hy
  exact h x (List.mem_of_mem_filter hx) y (List.mem_of_mem_filter hy) huser

theorem Uncrossed.bid_lt_ask (h : b.Uncrossed) {bid ask : Order} (hbid : bid ∈ b.ordersOn .buy)
    (hask : ask ∈ b.ordersOn .sell) (huser : bid.userId ≠ ask.userId) :
    ∃ p q, bid.price = some p ∧ ask.price = some q ∧ p < q := by
  have hside := side_of_mem_ordersOn hbid
  have hnot := h bid (mem_orders_of_mem_ordersOn hbid) ask (by rw [hside]; exact hask)
    (Ne.symm huser)
  rw [not_priceCrosses_iff, hside] at hnot
  exact hnot

theorem Uncrossed.match {market : Market} {es : List MatchEvent} (h : b.Uncrossed)
    (hid : (b.insert o).DistinctIds) (hfresh : ∀ x ∈ b.orders, x.id ≠ o.id)
    (hout : MatchOutcome (b.insert o) o market es b') : b'.Uncrossed := by
  have hperm := insert_orders_perm_of_fresh hfresh
  have hown : ∀ x ∈ b'.orders, x.id = o.id → x = o.withRemaining x.remaining := by
    intro x hx hxo
    obtain ⟨y, hy, hxy, -⟩ := hout.from_before x hx
    have hyo : y.id = o.id := by
      rw [hxy] at hxo
      exact hxo
    rw [hid.eq_of_id_eq hy (mem_insert_self b o) hyo] at hxy
    exact hxy
  have hold : ∀ x ∈ b'.orders, x.id ≠ o.id →
      ∃ y ∈ b.orders, x = y.withRemaining x.remaining := by
    intro x hx hxo
    obtain ⟨y, hy, hxy, -⟩ := hout.from_before x hx
    rcases List.mem_cons.mp (hperm.mem_iff.mp hy) with rfl | hy
    · rw [hxy] at hxo
      exact absurd rfl hxo
    · exact ⟨y, hy, hxy⟩
  -- the pair of the incoming order's remainder with any other order
  have hrest : ∀ x ∈ b'.orders, x.id = o.id → ∀ y ∈ b'.ordersOn x.side.opposite,
      y.userId ≠ x.userId → ¬ PriceCrosses x y := by
    intro x hx hxo y hy huser hcross
    have hxeq := hown x hx hxo
    have hside : x.side = o.side := by rw [hxeq, Order.withRemaining_side]
    have hxuser : x.userId = o.userId := by rw [hxeq, Order.withRemaining_userId]
    have hprice : x.price = o.price := by rw [hxeq, Order.withRemaining_price]
    rw [hside] at hy
    rw [hxuser] at huser
    exact hout.rest_crosses_none x hx hxo y hy huser
      (hcross.congr hside.symm hprice.symm rfl)
  intro x hx y hy huser
  have hyside := side_of_mem_ordersOn hy
  have hyb := mem_orders_of_mem_ordersOn hy
  by_cases hxo : x.id = o.id
  · exact hrest x hx hxo y hy huser
  by_cases hyo : y.id = o.id
  · rw [priceCrosses_symm hyside]
    refine hrest y hyb hyo x ?_ (Ne.symm huser)
    rw [hyside, Side.opposite_opposite]
    exact mem_ordersOn_side hx
  · obtain ⟨x₀, hx₀, hxeq⟩ := hold x hx hxo
    obtain ⟨y₀, hy₀, hyeq⟩ := hold y hyb hyo
    have hsides : y₀.side = x₀.side.opposite := by
      rw [hyeq, hxeq] at hyside
      exact hyside
    have husers : y₀.userId ≠ x₀.userId := by
      rw [hyeq, hxeq] at huser
      exact huser
    intro hcross
    rw [hxeq, hyeq] at hcross
    exact h x₀ hx₀ y₀ (hsides ▸ mem_ordersOn_side hy₀) husers hcross

end OrderBook

namespace Engine

variable {e : Engine} {o : Order}

def Uncrossed (e : Engine) : Prop := ∀ market, (e.bookOf market).Uncrossed

theorem Uncrossed.new : Engine.new.Uncrossed := fun _ => OrderBook.Uncrossed.new

theorem bookOf_cancelOrder (e : Engine) (orderId : OrderId) (market : Market) :
    (e.cancelOrder orderId).bookOf market = (e.bookOf market).cancelOrder orderId := by
  cases h : e.orderBooks.get? market with
  | none =>
    have hnot := get?_eq_none.mp h
    have hnone : (e.cancelOrder orderId).orderBooks.get? market = none := by
      rw [get?_eq_none]
      simpa [keys, Engine.cancelOrder, mapValues] using hnot
    rw [bookOf, bookOf, h, hnone]
    rfl
  | some book =>
    have hmem := get?_eq_some.mp h
    have hmem' : (market, book.cancelOrder orderId) ∈
        (e.cancelOrder orderId).orderBooks.entries :=
      List.mem_map_of_mem (f := fun p : Market × OrderBook =>
        (p.1, p.2.cancelOrder orderId)) hmem
    rw [bookOf_of_mem hmem', bookOf_of_mem hmem]

theorem Uncrossed.cancelOrder (h : e.Uncrossed) (orderId : OrderId) :
    (e.cancelOrder orderId).Uncrossed := by
  intro market
  rw [bookOf_cancelOrder]
  exact (h market).cancelOrder orderId

theorem Uncrossed.placeOrder (h : e.Uncrossed) (hwf : e.WellFormed) (hfresh : ∀ x ∈ e.orders,
    x.id ≠ o.id) (hpos : 0 < o.remaining) (now : ℕ → ℕ) : (e.placeOrder now o).1.Uncrossed := by
  have hins : (e.insertOrder o).WellFormed :=
    hwf.insertOrder (fun x hx hxo => absurd hxo (hfresh x hx)) hpos
  have hbook : (e.insertOrder o).bookOf o.market = (e.bookOf o.market).insert o :=
    bookOf_commitBook_self e o.market _
  have hout := trialMatch_outcome hins now
  have hid := hins.distinctIds o.market
  rw [hbook] at hout hid
  intro market
  rw [bookOf, orderBooks_placeOrder]
  by_cases hm : market = o.market
  · subst hm
    have hself := bookOf_commitBook_self e o.market (e.trialMatch now o).2
    rw [bookOf] at hself
    rw [hself]
    exact (h o.market).match hid (fun x hx => hfresh x (mem_orders_of_mem_bookOf hx)) hout
  · have hne := bookOf_commitBook_of_ne e (e.trialMatch now o).2 hm
    rw [bookOf] at hne
    rw [hne]
    exact h market

end Engine

theorem uncrossed_run {ops : List EngineOp} (h : FreshPlacements ops) :
    (EngineTrace.run ops).engine.Uncrossed := by
  induction ops using List.reverseRecOn with
  | nil => exact Engine.Uncrossed.new
  | append_singleton ops op ih =>
    rw [EngineTrace.run_concat]
    cases op with
    | place now o =>
      have hacc := accounts_run h.init
      have hfresh : ∀ x ∈ (EngineTrace.run ops).engine.orders, x.id ≠ o.id :=
        fun x hx hxo => h.last.1 (hxo ▸ hacc.resting_placed x hx)
      exact (ih h.init).placeOrder hacc.wellFormed hfresh h.last.2 now
    | cancel orderId => exact (ih h.init).cancelOrder orderId

/-- In every state the engine reaches, a bid and an ask of different users in the
book of one market both have a price, and the bid's is lower. -/
theorem run_never_crossed (ops : List EngineOp) (h : FreshPlacements ops) (market : Market) :
    ∀ bid ∈ ((EngineTrace.run ops).engine.bookOf market).ordersOn .buy,
    ∀ ask ∈ ((EngineTrace.run ops).engine.bookOf market).ordersOn .sell, bid.userId ≠ ask.userId →
    ∃ p q, bid.price = some p ∧ ask.price = some q ∧ p < q :=
  fun _ hbid _ hask huser => (uncrossed_run h market).bid_lt_ask hbid hask huser

/-- A user's own bid and ask cross in the book, and another user's ask rests above
the bid. -/
def ownCrossRun : List EngineOp :=
  [.place id ⟨1, 10, "BTC_USDT", .sell, .limit, some 100, 2, 2, 5⟩,
    .place id ⟨2, 10, "BTC_USDT", .buy, .limit, some 101, 1, 1, 6⟩,
    .place id ⟨3, 11, "BTC_USDT", .sell, .limit, some 102, 4, 4, 7⟩]

theorem ownCrossRun_never_crossed :
    FreshPlacements ownCrossRun ∧
    (((EngineTrace.run ownCrossRun).engine.bookOf "BTC_USDT").ordersOn .buy).map Order.id =
      [2] ∧
    (((EngineTrace.run ownCrossRun).engine.bookOf "BTC_USDT").ordersOn .sell).map Order.id =
      [1, 3] ∧
    ∀ bid ∈ ((EngineTrace.run ownCrossRun).engine.bookOf "BTC_USDT").ordersOn .buy,
      ∀ ask ∈ ((EngineTrace.run ownCrossRun).engine.bookOf "BTC_USDT").ordersOn .sell,
        bid.userId ≠ ask.userId →
          ∃ p q, bid.price = some p ∧ ask.price = some q ∧ p < q :=
  have hfresh : FreshPlacements ownCrossRun := ⟨by decide, by decide +kernel⟩
  ⟨hfresh, by decide +kernel, by decide +kernel,
    run_never_crossed ownCrossRun hfresh "BTC_USDT"⟩

end MetherCEX
