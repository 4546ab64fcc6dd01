import MetherCEX.Engine.Renumbered

/-!
# The counter of event ids wraps

`next_event_id` is a `usize`, and `fetch_add` wraps.
-/

namespace MetherCEX

open List Engine.SameBooks

def unitSell (market : Market) (id : OrderId) : Order :=
  ⟨id, 10, market, .sell, .limit, some 100, 1, 1, 5⟩

def unitBuy (market : Market) (id : OrderId) : Order :=
  ⟨id, 11, market, .buy, .limit, some 100, 1, 1, 6⟩

/-- A sell and the buy that takes it, with ids `a` and `a + 1`. -/
def unitTrade (market : Market) (a : OrderId) : List EngineOp :=
  [.place noClock (unitSell market a), .place noClock (unitBuy market (a + 1))]

def unitTrades (market : Market) (first : OrderId) (n : ℕ) : List EngineOp :=
  (List.range n).flatMap fun k => unitTrade market (first + 2 * k)

namespace OrderBook

theorem unitSell_rests (market : Market) (a : OrderId) : new.insertAndMatch
    market noClock (unitSell market a) = ([], new.insert (unitSell market a)) := by
  have hremove : (new.insert (unitSell market a)).removeOrderById (unitSell market a).id =
      some (unitSell market a, new) :=
    removeOrderById_insert nofun
  have hloop : new.matchSell market noClock (unitSell market a) =
      ⟨unitSell market a, new.bids, []⟩ :=
    Loop.iterate_of_none (matchStep_of_no_candidate rfl) _
  have hafter : new.afterSell market noClock (unitSell market a) = new :=
    eq_of_sides (congrArg MatchState.passive hloop) rfl
  have hside : (unitSell market a).side = .sell := rfl
  rw [insertAndMatch, matchOrders, hremove]
  simp only [hside, hloop, hafter]
  rw [insertRest, if_pos (show 0 < (unitSell market a).remaining from one_pos)]

theorem unitBuy_takes (market : Market) {a b : OrderId} (hab : a ≠ b) :
    ∃ ev : MatchEvent, ev.market = market ∧ (new.insert (unitSell market a)).insertAndMatch
    market noClock (unitBuy market b) = ([ev], new) := by
  set book := new.insert (unitSell market a) with hbook
  set sell := unitSell market a with hsell
  set buy := unitBuy market b with hbuy
  have hasks : book.asks.entries = [(AskKey.fromOrder sell, sell)] := rfl
  have hremove : (book.insert buy).removeOrderById buy.id = some (buy, book) := by
    refine removeOrderById_insert fun x hx => ?_
    obtain rfl : x = sell := mem_singleton.mp hx
    exact hab
  have hcandidate : (book.asks.entries.filter fun e =>
      isCandidate priceBuyCrosses buy e.2) = [(AskKey.fromOrder sell, sell)] := by
    rw [hasks]
    refine filter_eq_self.mpr fun e he => ?_
    rw [mem_singleton.mp he]
    simp [isCandidate, priceBuyCrosses, hbuy, hsell, unitBuy, unitSell]
  -- one round takes both orders
  set s₁ := matchRound (buyEvent market) noClock ⟨buy, book.asks, []⟩
    (AskKey.fromOrder sell) sell with hs₁
  have hfirst : matchStep priceBuyCrosses (buyEvent market) noClock ⟨buy, book.asks, []⟩ =
      some s₁ := matchStep_of_candidate hcandidate one_pos one_pos
  have hrest : s₁.incoming.remaining = 0 := by
    simp [hs₁, matchRound, Order.withRemaining, hbuy, hsell, unitBuy, unitSell]
  have hloop : book.matchBuy market noClock buy = s₁ := by
    rw [matchBuy, matchLoop, Loop.iterate_of_some hfirst]
    exact Loop.iterate_of_none (matchStep_of_nonpos (by rw [hrest]; exact lt_irrefl 0)) _
  have hpassive : s₁.passive = new.asks := by
    rw [hs₁, matchRound_passive_of_full (by simp [hbuy, hsell, unitBuy, unitSell])]
    have hentries : (book.asks.remove (AskKey.fromOrder sell)).entries = [] := by
      simp [SortedMap.remove, hasks]
    exact SortedMap.ext hentries
  have hafter : book.afterBuy market noClock buy = new :=
    eq_of_sides rfl ((congrArg MatchState.passive hloop).trans hpassive)
  have hside : buy.side = .buy := rfl
  obtain ⟨ev, hev, hmarket⟩ : ∃ ev, s₁.events = [ev] ∧ ev.market = market := ⟨_, rfl, rfl⟩
  refine ⟨ev, hmarket, ?_⟩
  rw [insertAndMatch, matchOrders, hremove]
  simp only [hside, hloop, hafter]
  rw [insertRest, if_neg (by rw [hrest]; exact lt_irrefl 0), hev]
end OrderBook

theorem Engine.nextEventId_placeOrder_mod {e : Engine} (h : e.nextEventId < usizeBound)
    (now : ℕ → ℕ) (o : Order) : (e.placeOrder now o).1.nextEventId =
    (e.nextEventId + (e.trialMatch now o).1.length) % usizeBound := by
  simp only [placeOrder, nextEventId_recordEvents]
  split_ifs with hlen
  · rfl
  · rw [Nat.eq_zero_of_not_pos hlen, Nat.add_zero, Nat.mod_eq_of_lt h]
    rfl

theorem Engine.placeOrder_snd (e : Engine) (now : ℕ → ℕ) (o : Order) :
    (e.placeOrder now o).2 = numberEvents e.nextEventId (e.trialMatch now o).1 := rfl

namespace EngineTrace

variable {market : Market} {s : EngineTrace}

theorem step_place (s : EngineTrace) (now : ℕ → ℕ) (o : Order) : s.step (.place now o) =
    ⟨(s.engine.placeOrder now o).1, s.returned ++ (s.engine.placeOrder now o).2⟩ := rfl

/-- `s'` is `s` after trades in one market that start from an empty book and took the ids
`ids`. -/
structure Traded (market : Market) (ids : List ℕ) (s s' : EngineTrace) : Prop where
  book : s'.engine.bookOf market = .new
  others : ∀ m ≠ market, s'.engine.bookOf m = s.engine.bookOf m
  next : s'.engine.nextEventId = (s.engine.nextEventId + ids.length) % usizeBound
  returned : ∃ pairs, s'.returned = s.returned ++ pairs ∧ pairs.map Prod.fst = ids ∧
    ∀ p ∈ pairs, p.2.market = market

theorem unitTrade_run (a : OrderId) (hbook : s.engine.bookOf market = .new)
    (hnext : s.engine.nextEventId < usizeBound) :
    Traded market [s.engine.nextEventId] s ((unitTrade market a).foldl step s) := by
  set sell := unitSell market a with hsell
  set buy := unitBuy market (a + 1) with hbuy
  set e₁ := (s.engine.placeOrder noClock sell).1 with he₁
  have hsellMarket : sell.market = market := rfl
  have hbuyMarket : buy.market = market := rfl
  have hrests : s.engine.trialMatch noClock sell = ([], OrderBook.new.insert sell) := by
    rw [Engine.trialMatch, hsellMarket, hbook]
    exact OrderBook.unitSell_rests market a
  have hbook₁ : e₁.bookOf market = OrderBook.new.insert sell := by
    rw [he₁, bookOf_placeOrder, hsellMarket, if_pos rfl, hrests]
  obtain ⟨ev, hevMarket, htaken⟩ := OrderBook.unitBuy_takes market (Nat.succ_ne_self a).symm
  have htakes : e₁.trialMatch noClock buy = ([ev], OrderBook.new) := by
    rw [Engine.trialMatch, hbuyMarket, hbook₁]
    exact htaken
  -- the sell rests without an event, so the buy gets the next id
  have hsellPairs : (s.engine.placeOrder noClock sell).2 = [] := by
    rw [Engine.placeOrder_snd, hrests]
    rfl
  have hnext₁ : e₁.nextEventId = s.engine.nextEventId := by
    rw [he₁, Engine.nextEventId_placeOrder_mod hnext, hrests]
    exact Nat.mod_eq_of_lt hnext
  have hbuyPairs : (e₁.placeOrder noClock buy).2 = [(s.engine.nextEventId, ev)] := by
    rw [Engine.placeOrder_snd, htakes, hnext₁]
    simp [numberEvents, Nat.mod_eq_of_lt hnext]
  have hrun : (unitTrade market a).foldl step s =
      ⟨(e₁.placeOrder noClock buy).1, s.returned ++ [(s.engine.nextEventId, ev)]⟩ := by
    rw [unitTrade, foldl_cons, foldl_cons, foldl_nil, step_place, step_place,
      ← hsell, ← hbuy, ← he₁, hsellPairs, hbuyPairs, append_nil]
  rw [hrun]
  refine ⟨?_, fun m hm => ?_, ?_, [(s.engine.nextEventId, ev)], rfl, rfl, fun p hp => ?_⟩
  · rw [bookOf_placeOrder, hbuyMarket, if_pos rfl, htakes]
  · rw [bookOf_placeOrder, hbuyMarket, if_neg hm, he₁,
      bookOf_placeOrder, hsellMarket, if_neg hm]
  · rw [Engine.nextEventId_placeOrder_mod (hnext₁.symm ▸ hnext), htakes, hnext₁]
    rfl
  · rw [mem_singleton.mp hp]
    exact hevMarket

theorem unitTrades_run (first : OrderId) (n : ℕ) {s : EngineTrace} (hbook : s.engine.bookOf market =
    .new) (hnext : s.engine.nextEventId < usizeBound) : Traded market ((List.range n).map fun k
    => (s.engine.nextEventId + k) % usizeBound) s ((unitTrades market first n).foldl step s) := by
  induction n with
  | zero =>
    have hnil : (unitTrades market first 0).foldl step s = s := rfl
    rw [hnil]
    refine ⟨hbook, fun _ _ => rfl, ?_, [], (append_nil _).symm, rfl, by simp⟩
    exact (Nat.mod_eq_of_lt hnext).symm
  | succ n ih =>
    -- the last trade is made from the state after the others
    have hsplit : unitTrades market first (n + 1) =
        unitTrades market first n ++ unitTrade market (first + 2 * n) := by
      simp [unitTrades, range_succ]
    rw [hsplit, foldl_append]
    set s₁ := (unitTrades market first n).foldl step s with hs₁
    obtain ⟨pairs, hreturned, hids, hmarkets⟩ := ih.returned
    have hnext₁ : s₁.engine.nextEventId = (s.engine.nextEventId + n) % usizeBound := by
      rw [ih.next, length_map, length_range]
    have hlast := unitTrade_run (first + 2 * n) ih.book
      (hnext₁.symm ▸ Nat.mod_lt _ (Nat.two_pow_pos 64))
    obtain ⟨pairs', hreturned', hids', hmarkets'⟩ := hlast.returned
    refine ⟨hlast.book, fun m h => (hlast.others m h).trans (ih.others m h), ?_,
      pairs ++ pairs', ?_, ?_, fun p hp => ?_⟩
    · rw [hlast.next, hnext₁, length_map, length_range, length_singleton,
        Nat.mod_add_mod, Nat.add_assoc]
    · rw [hreturned', hreturned, append_assoc]
    · rw [map_append, hids, hids', hnext₁, range_succ, map_append,
        map_singleton]
    · exact (mem_append.mp hp).elim (hmarkets p) (hmarkets' p)

end EngineTrace

end MetherCEX
