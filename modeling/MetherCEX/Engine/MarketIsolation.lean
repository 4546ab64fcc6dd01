import MetherCEX.Engine.ExecutionPrice
import MetherCEX.Engine.Trades
import MetherCEX.Engine.CounterWrap

/-!
# The markets of an engine do not see each other

`cancel_order` looks for its id in the book of every market, and the ids of all events come from
one counter.
-/

namespace MetherCEX

open List SortedMap EngineOp Engine

variable {marketOf : OrderId → Market} {market : Market}

/-- The call belongs to the market; a cancellation to the market of its order id. -/
def EngineOp.belongsTo (marketOf : OrderId → Market) (market : Market) : EngineOp → Bool
  | .place _ o => decide (o.market = market)
  | .cancel orderId => decide (marketOf orderId = market)

def aloneOps (marketOf : OrderId → Market) (market : Market) (ops : List EngineOp) :
    List EngineOp :=
  ops.filter (EngineOp.belongsTo marketOf market)

section AloneOps

variable {ops : List EngineOp} {now : ℕ → ℕ} {o : Order} {orderId : OrderId}

theorem aloneOps_place (h : o.market = market) :
    aloneOps marketOf market (.place now o :: ops) = .place now o :: aloneOps marketOf market ops :=
  filter_cons_of_pos
    (show belongsTo marketOf market (.place now o) = true from decide_eq_true h)

theorem aloneOps_place_of_ne (h : o.market ≠ market) :
    aloneOps marketOf market (.place now o :: ops) = aloneOps marketOf market ops :=
  filter_cons_of_neg (by simpa [belongsTo] using h)

theorem aloneOps_cancel (h : marketOf orderId = market) : aloneOps
    marketOf market (.cancel orderId :: ops) = .cancel orderId :: aloneOps marketOf market ops :=
  filter_cons_of_pos
    (show belongsTo marketOf market (.cancel orderId) = true from decide_eq_true h)

theorem aloneOps_cancel_of_ne (h : marketOf orderId ≠ market) :
    aloneOps marketOf market (.cancel orderId :: ops) = aloneOps marketOf market ops :=
  filter_cons_of_neg (by simpa [belongsTo] using h)

end AloneOps

def IdsByMarket (marketOf : OrderId → Market) (ops : List EngineOp) : Prop :=
  ∀ o ∈ placedOrders ops, o.market = marketOf o.id

theorem OrderBook.cancelOrder_of_forall_ne {b : OrderBook} {orderId : OrderId}
    (h : ∀ x ∈ b.orders, x.id ≠ orderId) : b.cancelOrder orderId = b := by
  apply eq_of_sides
  · apply ext
    refine filter_eq_self.mpr fun entry hentry => decide_eq_true (h entry.2 ?_)
    exact mem_orders.mpr (.inl (mem_values.mpr ⟨entry.1, hentry⟩))
  · apply ext
    refine filter_eq_self.mpr fun entry hentry => decide_eq_true (h entry.2 ?_)
    exact mem_orders.mpr (.inr (mem_values.mpr ⟨entry.1, hentry⟩))

namespace Engine

variable {e : Engine} {now : ℕ → ℕ} {o : Order}

def BooksByMarket (marketOf : OrderId → Market) (e : Engine) : Prop :=
  ∀ market, ∀ x ∈ (e.bookOf market).orders, marketOf x.id = market

theorem BooksByMarket.placeOrder (h : e.BooksByMarket marketOf)
    (ho : o.market = marketOf o.id) : (e.placeOrder now o).1.BooksByMarket marketOf := by
  intro m x hx
  rw [SameBooks.bookOf_placeOrder] at hx
  split_ifs at hx with hm
  · obtain ⟨y, hy, hxy⟩ := (e.trialMatch_provenance now o).1 x hx
    rw [hxy.id_eq, hm]
    rcases hy with hy | hy
    · rw [hy, ho]
    · exact h o.market y hy
  · exact h m x hx

theorem BooksByMarket.cancelOrder (h : e.BooksByMarket marketOf) (orderId : OrderId) :
    (e.cancelOrder orderId).BooksByMarket marketOf := by
  intro m x hx
  rw [bookOf_cancelOrder, OrderBook.orders_cancelOrder] at hx
  exact h m x (mem_of_mem_filter hx)

theorem bookOf_cancelOrder_of_foreign (h : e.BooksByMarket marketOf) {orderId : OrderId}
    (hm : marketOf orderId ≠ market) : (e.cancelOrder orderId).bookOf market = e.bookOf market := by
  rw [bookOf_cancelOrder]
  apply OrderBook.cancelOrder_of_forall_ne
  intro x hx hid
  exact hm (hid ▸ h market x hx)

theorem market_of_mem_placeOrder {p : ℕ × MatchEvent} (hp : p ∈ (e.placeOrder now o).2) :
    p.2.market = o.market := by
  have hmem : p.2 ∈ (e.trialMatch now o).1 := by
    rw [← e.events_placeOrder now o]
    exact mem_map_of_mem hp
  obtain ⟨taker, -, maker, -, -, -, q, t, hev⟩ :=
    OrderBook.exists_fill_of_mem_matchOrders hmem
  rw [hev]
  exact (OrderBook.eventOf_legs _ _ _ _ _ _).2.2.2

end Engine

namespace EngineTrace

variable {s s' : EngineTrace} {ρ : ℕ → ℕ}

def returnedIn (market : Market) (s : EngineTrace) : List (ℕ × MatchEvent) :=
  s.returned.filter fun p => decide (p.2.market = market)

def IdsLeft (s : EngineTrace) : EngineOp → Prop
  | .place now o =>
    s.engine.nextEventId + (s.engine.trialMatch now o).1.length < usizeBound
  | .cancel _ => True

instance (s : EngineTrace) : ∀ op, Decidable (IdsLeft s op)
  | .place .. => inferInstanceAs (Decidable (_ < _))
  | .cancel _ => .isTrue trivial

theorem returnedIn_place_self {now : ℕ → ℕ} {o : Order} (h : o.market = market) : (s.step
    (.place now o)).returnedIn market = s.returnedIn market ++ (s.engine.placeOrder now o).2 := by
  change (s.returned ++ (s.engine.placeOrder now o).2).filter _ = _
  rw [filter_append]
  congr 1
  exact filter_eq_self.mpr fun p hp =>
    decide_eq_true ((market_of_mem_placeOrder hp).trans h)

theorem returnedIn_place_of_ne {now : ℕ → ℕ} {o : Order} (h : o.market ≠ market) :
    (s.step (.place now o)).returnedIn market = s.returnedIn market := by
  change (s.returned ++ (s.engine.placeOrder now o).2).filter _ = _
  have hnone : (s.engine.placeOrder now o).2.filter
      (fun p => decide (p.2.market = market)) = [] :=
    filter_eq_nil_iff.mpr fun p hp hm =>
      h ((market_of_mem_placeOrder hp).symm.trans (of_decide_eq_true hm))
  rw [filter_append, hnone, append_nil]
  rfl

/-- In the market, `s` looks like `s'`, in which only the calls of the market were made. -/
structure Alone (marketOf : OrderId → Market) (market : Market) (s s' : EngineTrace) :
    Prop where
  byMarket : s.engine.BooksByMarket marketOf
  book : s.engine.bookOf market = s'.engine.bookOf market
  events : (s.returnedIn market).map Prod.snd = s'.events

/-- `ρ` takes the ids of the run alone to those of the whole run. -/
structure AloneIds (market : Market) (ρ : ℕ → ℕ) (s s' : EngineTrace) : Prop where
  shift : Shift ρ s'.engine.nextEventId s.engine.nextEventId
  returned : s.returnedIn market = Engine.renamePairs ρ s'.returned
  returned_lt : ∀ p ∈ s'.returned, p.1 < s'.engine.nextEventId

namespace Alone

variable (h : Alone marketOf market s s')

include h

theorem trialMatch_eq {o : Order} (hm : o.market = market) (now : ℕ → ℕ) :
    s.engine.trialMatch now o = s'.engine.trialMatch now o := by
  rw [trialMatch, trialMatch, hm, h.book]

theorem place_self {now : ℕ → ℕ} {o : Order} (ho : o.market = marketOf o.id) (hm : o.market =
    market) : Alone marketOf market (s.step (.place now o)) (s'.step (.place now o)) := by
  refine ⟨h.byMarket.placeOrder ho, ?_, ?_⟩
  · change (s.engine.placeOrder now o).1.bookOf market =
      (s'.engine.placeOrder now o).1.bookOf market
    rw [Engine.SameBooks.bookOf_placeOrder, Engine.SameBooks.bookOf_placeOrder,
      h.trialMatch_eq hm now, h.book]
  · rw [returnedIn_place_self hm, map_append, h.events, events_step_place,
      events_placeOrder, events_placeOrder, h.trialMatch_eq hm now]

theorem place_of_ne {now : ℕ → ℕ} {o : Order} (ho : o.market = marketOf o.id)
    (hm : o.market ≠ market) : Alone marketOf market (s.step (.place now o)) s' := by
  refine ⟨h.byMarket.placeOrder ho, ?_, ?_⟩
  · change (s.engine.placeOrder now o).1.bookOf market = _
    rw [Engine.SameBooks.bookOf_placeOrder, if_neg hm.symm, h.book]
  · rw [returnedIn_place_of_ne hm, h.events]

theorem cancel_self (orderId : OrderId) :
    Alone marketOf market (s.step (.cancel orderId)) (s'.step (.cancel orderId)) := by
  refine ⟨h.byMarket.cancelOrder orderId, ?_, h.events⟩
  change (s.engine.cancelOrder orderId).bookOf market =
    (s'.engine.cancelOrder orderId).bookOf market
  rw [bookOf_cancelOrder, bookOf_cancelOrder, h.book]

theorem cancel_of_ne {orderId : OrderId} (hm : marketOf orderId ≠ market) :
    Alone marketOf market (s.step (.cancel orderId)) s' :=
  ⟨h.byMarket.cancelOrder orderId,
    (bookOf_cancelOrder_of_foreign h.byMarket hm).trans h.book, h.events⟩

end Alone

namespace AloneIds

theorem place_self (h : AloneIds market ρ s s') (ha : Alone marketOf market s s')
    {now : ℕ → ℕ} {o : Order} (hm : o.market = market)
    (hbound : s.engine.nextEventId + (s.engine.trialMatch now o).1.length < usizeBound) :
    AloneIds market ρ (s.step (.place now o)) (s'.step (.place now o)) := by
  have hmatch := ha.trialMatch_eq hm now
  have hle := h.shift.le_next
  have hbound' : s'.engine.nextEventId + (s'.engine.trialMatch now o).1.length <
      usizeBound := by
    rw [← hmatch]
    omega
  have hpairs : (s.engine.placeOrder now o).2 =
      renamePairs ρ (s'.engine.placeOrder now o).2 := by
    change numberEvents s.engine.nextEventId (s.engine.trialMatch now o).1 = _
    rw [numberEvents_rename h.shift hbound, hmatch]
    rfl
  have hnext := nextEventId_placeOrder s.engine now o hbound
  have hnext' := nextEventId_placeOrder s'.engine now o hbound'
  refine ⟨?_, ?_, fun p hp => ?_⟩
  · change Shift ρ (s'.engine.placeOrder now o).1.nextEventId
      (s.engine.placeOrder now o).1.nextEventId
    rw [hnext, hnext', hmatch]
    exact h.shift.draw _
  · rw [returnedIn_place_self hm, h.returned, hpairs]
    exact map_append.symm
  · change p.1 < (s'.engine.placeOrder now o).1.nextEventId
    rw [hnext']
    rcases mem_append.mp hp with hold | hnew
    · exact (h.returned_lt p hold).trans_le (Nat.le_add_right _ _)
    · exact (mem_numberEvents hnew hbound').2

theorem place_of_ne (h : AloneIds market ρ s s') {now : ℕ → ℕ} {o : Order} (hm : o.market ≠ market)
    (hbound : s.engine.nextEventId + (s.engine.trialMatch now o).1.length < usizeBound) :
    ∃ ρ', AloneIds market ρ' (s.step (.place now o)) s' := by
  obtain ⟨ρ', hshift, hsame⟩ := h.shift.skip (s.engine.trialMatch now o).1.length
  refine ⟨ρ', ?_, ?_, h.returned_lt⟩
  · change Shift ρ' s'.engine.nextEventId (s.engine.placeOrder now o).1.nextEventId
    rw [nextEventId_placeOrder s.engine now o hbound]
    exact hshift
  · rw [returnedIn_place_of_ne hm, h.returned]
    refine map_congr_left fun p hp => ?_
    rw [hsame p.1 (h.returned_lt p hp)]

end AloneIds

theorem foldl_alone (ops : List EngineOp) (hops : IdsByMarket marketOf ops) (h : Alone
    marketOf market s s') :
    Alone marketOf market (ops.foldl step s) ((aloneOps marketOf market ops).foldl step s') ∧
    ∀ ρ, AloneIds market ρ s s' → Run.Along step IdsLeft s ops → ∃ ρ',
    AloneIds market ρ' (ops.foldl step s) ((aloneOps marketOf market ops).foldl step s') := by
  induction ops generalizing s s' with
  | nil => exact ⟨h, fun ρ hids _ => ⟨ρ, hids⟩⟩
  | cons op ops ih =>
    cases op with
    | place now o =>
      have ho : o.market = marketOf o.id := hops o mem_cons_self
      have hrest : IdsByMarket marketOf ops := fun x hx => hops x (mem_cons_of_mem _ hx)
      by_cases hm : o.market = market
      · rw [aloneOps_place hm]
        refine (ih hrest (h.place_self ho hm)).imp_right fun hrun ρ hids hleft => ?_
        exact hrun ρ (hids.place_self h hm hleft.1) hleft.2
      · rw [aloneOps_place_of_ne hm]
        refine (ih hrest (h.place_of_ne ho hm)).imp_right fun hrun ρ hids hleft => ?_
        obtain ⟨ρ', hids⟩ := hids.place_of_ne hm hleft.1
        exact hrun ρ' hids hleft.2
    | cancel orderId =>
      by_cases hm : marketOf orderId = market
      · rw [aloneOps_cancel hm]
        refine (ih hops (h.cancel_self orderId)).imp_right fun hrun ρ hids hleft => ?_
        exact hrun ρ ⟨hids.shift, hids.returned, hids.returned_lt⟩ hleft.2
      · rw [aloneOps_cancel_of_ne hm]
        refine (ih hops (h.cancel_of_ne hm)).imp_right fun hrun ρ hids hleft => ?_
        exact hrun ρ ⟨hids.shift, hids.returned, hids.returned_lt⟩ hleft.2

theorem alone_new (marketOf : OrderId → Market) (market : Market) :
    Alone marketOf market ⟨Engine.new, []⟩ ⟨Engine.new, []⟩ :=
  ⟨nofun, rfl, rfl⟩

end EngineTrace

theorem IdsByMarket.of_aloneOps_eq {ops ops' : List EngineOp} (h : IdsByMarket marketOf ops)
    (hsame : ∀ market, aloneOps marketOf market ops' = aloneOps marketOf market ops) :
    IdsByMarket marketOf ops' := by
  intro o ho
  obtain ⟨op, hop, hplaced⟩ := mem_filterMap.mp ho
  cases op with
  | cancel orderId => cases hplaced
  | place now x =>
    cases hplaced
    have hmem : place now o ∈ aloneOps marketOf o.market ops' :=
      mem_filter.mpr ⟨hop, decide_eq_true rfl⟩
    rw [hsame] at hmem
    exact h o (mem_filterMap.mpr ⟨_, mem_of_mem_filter hmem, rfl⟩)

open EngineTrace in
/-- Market isolation: where every order id is used in one market, each market's book and
its events, ids aside, are those of the run of the market's placements and cancellations
alone, and any interleaving of the markets' calls gives the same books. As long as the
counter of ids does not wrap, the ids of the market's events are those of the run alone
under a strictly increasing renaming. -/
theorem markets_isolated (marketOf : OrderId → Market) (ops : List EngineOp)
    (hops : IdsByMarket marketOf ops) : (∀ market, (run ops).engine.bookOf market =
    (run (aloneOps marketOf market ops)).engine.bookOf market ∧ ((run ops).returnedIn market).map
    Prod.snd = (run (aloneOps marketOf market ops)).returned.map Prod.snd ∧ (Run.Along step IdsLeft
    ⟨Engine.new, []⟩ ops → ∃ ρ, StrictMono ρ ∧ (run ops).returnedIn market = Engine.renamePairs
    ρ (run (aloneOps marketOf market ops)).returned)) ∧ ∀ ops', (∀ market, aloneOps marketOf
    market ops' = aloneOps marketOf market ops) → (run ops').engine.SameBooks (run ops).engine := by
  refine ⟨fun market => ?_, fun ops' hsame market => ?_⟩
  · obtain ⟨halone, hids⟩ := foldl_alone ops hops (alone_new marketOf market)
    refine ⟨halone.book, halone.events, fun hleft => ?_⟩
    obtain ⟨ρ, hρ⟩ := hids id ⟨Shift.refl 1, rfl, nofun⟩ hleft
    exact ⟨ρ, hρ.shift.strictMono, hρ.returned⟩
  · have halone := (foldl_alone ops hops (alone_new marketOf market)).1
    have halone' := (foldl_alone ops' (hops.of_aloneOps_eq hsame) (alone_new marketOf market)).1
    rw [hsame market] at halone'
    exact halone'.book.trans halone.book.symm

def twoMarketsRun : List EngineOp :=
  [.place noClock ⟨1, 10, "BTC_USDT", .sell, .limit, some 100, 1, 1, 5⟩,
    .place noClock ⟨2, 10, "ETH_USDT", .sell, .limit, some 50, 2, 2, 6⟩,
    .place noClock ⟨3, 11, "ETH_USDT", .buy, .limit, some 50, 1, 1, 7⟩,
    .cancel 2,
    .place noClock ⟨4, 11, "BTC_USDT", .buy, .limit, some 100, 1, 1, 8⟩]

def twoMarketsOf (orderId : OrderId) : Market :=
  if orderId = 1 ∨ orderId = 4 then "BTC_USDT" else "ETH_USDT"

theorem twoMarkets_isolated :
    (EngineTrace.run twoMarketsRun).returned.map Prod.fst = [1, 2] ∧
      (EngineTrace.run twoMarketsRun).engine.bookOf "BTC_USDT" =
        (EngineTrace.run (aloneOps twoMarketsOf "BTC_USDT" twoMarketsRun)).engine.bookOf
          "BTC_USDT" := by
  have hops : IdsByMarket twoMarketsOf twoMarketsRun := by
    unfold IdsByMarket
    decide +kernel
  exact ⟨by decide +kernel, ((markets_isolated twoMarketsOf twoMarketsRun hops).1 _).1⟩

/-- One trade in a market, `2 ^ 64 - 1` trades in another, and one more in the first. -/
def wrappingTrades : List EngineOp :=
  unitTrade "BTC_USDT" 1 ++
    (unitTrades "ETH_USDT" 5 (usizeBound - 1) ++ unitTrade "BTC_USDT" 3)

def unitMarketOf (orderId : OrderId) : Market :=
  if orderId < 5 then "BTC_USDT" else "ETH_USDT"

theorem exists_of_mem_unitTrades {first n : ℕ} {op : EngineOp}
    (h : op ∈ unitTrades market first n) : ∃ a ≥ first, op ∈ unitTrade market a := by
  obtain ⟨k, -, hop⟩ := mem_flatMap.mp h
  exact ⟨first + 2 * k, Nat.le_add_right _ _, hop⟩

theorem aloneOps_wrappingTrades :
    aloneOps unitMarketOf "BTC_USDT" wrappingTrades =
      unitTrade "BTC_USDT" 1 ++ unitTrade "BTC_USDT" 3 := by
  have heth : (unitTrades "ETH_USDT" 5 (usizeBound - 1)).filter
      (belongsTo unitMarketOf "BTC_USDT") = [] := by
    refine filter_eq_nil_iff.mpr fun op hop => ?_
    obtain ⟨a, -, hop⟩ := exists_of_mem_unitTrades hop
    rcases mem_pair.mp hop with rfl | rfl <;>
      simp [belongsTo, unitSell, unitBuy]
  rw [wrappingTrades, aloneOps, filter_append, filter_append, heth]
  rfl

theorem idsByMarket_wrappingTrades : IdsByMarket unitMarketOf wrappingTrades := by
  intro o ho
  obtain ⟨op, hop, hplaced⟩ := mem_filterMap.mp ho
  rcases mem_append.mp hop with hop | hop
  · rcases mem_pair.mp hop with rfl | rfl <;> cases hplaced <;> rfl
  rcases mem_append.mp hop with hop | hop
  · obtain ⟨a, ha, hop⟩ := exists_of_mem_unitTrades hop
    rcases mem_pair.mp hop with rfl | rfl <;> cases hplaced
    · exact (if_neg (show ¬ a < 5 by omega)).symm
    · exact (if_neg (show ¬ a + 1 < 5 by omega)).symm
  · rcases mem_pair.mp hop with rfl | rfl <;> cases hplaced <;> rfl

open EngineTrace in
/-- The two trades of the first market have the same id; in the run alone they have
different ones. -/
theorem wrapped_by_other_market :
    IdsByMarket unitMarketOf wrappingTrades ∧
      ((run wrappingTrades).returnedIn "BTC_USDT").map Prod.fst = [1, 1] ∧
      (run (aloneOps unitMarketOf "BTC_USDT" wrappingTrades)).returned.map Prod.fst = [1, 2] := by
  have hfirst : Traded "BTC_USDT" [1] ⟨Engine.new, []⟩
      ((unitTrade "BTC_USDT" 1).foldl step ⟨Engine.new, []⟩) :=
    unitTrade_run (s := ⟨Engine.new, []⟩) 1 rfl (by decide)
  refine ⟨idsByMarket_wrappingTrades, ?_, ?_⟩
  · rw [run, wrappingTrades, foldl_append, foldl_append]
    set s₁ := (unitTrade "BTC_USDT" 1).foldl step ⟨Engine.new, []⟩ with hs₁
    have hnext₁ : s₁.engine.nextEventId = 2 := hfirst.next
    have heth : s₁.engine.bookOf "ETH_USDT" = .new := hfirst.others _ (by decide)
    have hmany := unitTrades_run 5 (usizeBound - 1) heth (by rw [hnext₁]; decide)
    set s₂ := (unitTrades "ETH_USDT" 5 (usizeBound - 1)).foldl step s₁ with hs₂
    have hnext₂ : s₂.engine.nextEventId = 1 := by
      rw [hmany.next, hnext₁, length_map, length_range]
      rfl
    have hbtc : s₂.engine.bookOf "BTC_USDT" = .new :=
      (hmany.others _ (by decide)).trans hfirst.book
    have hlast := unitTrade_run 3 hbtc (by rw [hnext₂]; decide)
    obtain ⟨p₁, hr₁, hids₁, hm₁⟩ := hfirst.returned
    obtain ⟨p₂, hr₂, -, hm₂⟩ := hmany.returned
    obtain ⟨p₃, hr₃, hids₃, hm₃⟩ := hlast.returned
    have hkeep : ∀ p : List (ℕ × MatchEvent), (∀ x ∈ p, x.2.market = "BTC_USDT") →
        p.filter (fun x => decide (x.2.market = "BTC_USDT")) = p := fun p hp =>
      filter_eq_self.mpr fun x hx => decide_eq_true (hp x hx)
    have hdrop : p₂.filter (fun x => decide (x.2.market = "BTC_USDT")) = [] :=
      filter_eq_nil_iff.mpr fun x hx => by simp [hm₂ x hx]
    rw [returnedIn, hr₃, hr₂, hr₁, nil_append, filter_append, filter_append,
      hkeep p₁ hm₁, hdrop, hkeep p₃ hm₃, append_nil, map_append, hids₁, hids₃, hnext₂]
    rfl
  · rw [aloneOps_wrappingTrades, run, foldl_append]
    set s₁ := (unitTrade "BTC_USDT" 1).foldl step ⟨Engine.new, []⟩ with hs₁
    have hnext₁ : s₁.engine.nextEventId = 2 := hfirst.next
    have hlast := unitTrade_run 3 hfirst.book (by rw [hnext₁]; decide)
    obtain ⟨p₁, hr₁, hids₁, -⟩ := hfirst.returned
    obtain ⟨p₂, hr₂, hids₂, -⟩ := hlast.returned
    rw [hr₂, hr₁, nil_append, map_append, hids₁, hids₂, hnext₁]
    rfl

end MetherCEX
