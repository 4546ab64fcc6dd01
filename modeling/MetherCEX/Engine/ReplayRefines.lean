import MetherCEX.Engine.MatchFill
import MetherCEX.Engine.Taker

/-!
# Replaying the events of a match gives the book of the match

`match_orders` holds the incoming order outside the book while it walks the opposite side;
`apply_match_fill` changes a bid and an ask that both rest.
-/

namespace MetherCEX

open List SortedMap OrderBook

section Sides

variable {K K' : Type} [LinearOrder K] [LinearOrder K']

def leaveRest (m : SortedMap K Order) (key : K) (o : Order) (r : Quantity) :
    SortedMap K Order :=
  if 0 < r then m.insert key (o.withRemaining r) else m.remove key

theorem leaveRest_insert (m : SortedMap K Order) (key : K) (o x : Order) (r : Quantity) :
    leaveRest (m.insert key x) key o r = leaveRest m key o r := by
  rw [leaveRest, leaveRest, insert_insert, remove_insert]

variable {event : Order → Order → Price → Quantity → ℕ → MatchEvent} {now : ℕ → ℕ}

theorem matchRound_passive (s : MatchState K) (key : K) (maker : Order) :
    (matchRound event now s key maker).passive = leaveRest s.passive key maker
      (maker.remaining - min s.incoming.remaining maker.remaining) := by
  by_cases hrest : 0 < maker.remaining - min s.incoming.remaining maker.remaining
  · rw [leaveRest, if_pos hrest, matchRound_passive_of_rest hrest]
  · rw [leaveRest, if_neg hrest, matchRound_passive_of_full hrest]

theorem ids_nodup_leaveRest {m : SortedMap K Order} (hid : (m.values.map Order.id).Nodup)
    {key : K} {o : Order} (hmem : (key, o) ∈ m.entries) (r : Quantity) :
    ((leaveRest m key o r).values.map Order.id).Nodup := by
  unfold leaveRest
  split_ifs
  · have hsame : (fun x : Order => (if x.id = o.id then o.withRemaining r else x).id) =
        Order.id := by
      funext x
      split_ifs with hx
      · exact hx.symm
      · rfl
    rw [values_insert hid hmem, map_map, Function.comp_def, hsame]
    exact hid
  · rw [values_remove hid hmem]
    exact hid.sublist (filter_sublist.map _)

/-- What the loop keeps of an incoming order `t` and of the opposite side while the
events are replayed. -/
structure Replayable (market : Market) (t : Order) (s : MatchState K) : Prop where
  incoming_eq : s.incoming = t.withRemaining s.incoming.remaining
  ids : (s.passive.values.map Order.id).Nodup
  positive : ∀ m ∈ s.passive.values, 0 < m.remaining
  market_eq : ∀ m ∈ s.passive.values, m.market = market

theorem Replayable.round {market : Market} {t : Order}
    {s : MatchState K} (h : Replayable market t s) {key : K} {maker : Order} (hmem : (key,
    maker) ∈ s.passive.entries) : Replayable market t (matchRound event now s key maker) := by
  refine ⟨?_, ?_, fun m hm => ?_, fun m hm => ?_⟩
  · change s.incoming.withRemaining _ = _
    rw [h.incoming_eq]
    rfl
  · rw [matchRound_passive]
    exact ids_nodup_leaveRest h.ids hmem _
  · obtain ⟨y, hy, hmy⟩ := mem_matchRound_passive hmem hm
    exact hmy.2 (h.positive y hy)
  · obtain ⟨y, hy, hmy⟩ := mem_matchRound_passive hmem hm
    exact hmy.market_eq.trans (h.market_eq y hy)

/-- What a fill does to two sides of a book, `own` and `opposite`: it takes its quantity
from the first order of each side with the id it names there. -/
def FillsSides (own : OrderBook → SortedMap K' Order) (opposite : OrderBook → SortedMap K Order)
    (ownId oppositeId : MatchEvent → OrderId) : Prop :=
  ∀ (b : OrderBook) (ev : MatchEvent) (k' : K') (o : Order) (k : K) (m : Order),
    (own b).find? (fun x => decide (x.id = ownId ev)) = some (k', o) →
    (opposite b).find? (fun x => decide (x.id = oppositeId ev)) = some (k, m) →
    o.market = ev.market → m.market = ev.market → 0 < ev.quantity →
    ev.quantity ≤ o.remaining → ev.quantity ≤ m.remaining →
    ∃ b', b.applyMatchFill ev = .ok b' ∧
      own b' = leaveRest (own b) k' o (o.remaining - ev.quantity) ∧
      opposite b' = leaveRest (opposite b) k m (m.remaining - ev.quantity)

variable {own : OrderBook → SortedMap K' Order} {opposite : OrderBook → SortedMap K Order}
variable {ownId oppositeId : MatchEvent → OrderId}
variable {crosses : Order → Order → Bool}

variable (event now crosses) in
/-- The events of the loop can be replayed from a book in which the incoming order is
the first with its id; the replay ends where the loop does. -/
theorem foldlM_matchLoop (hfill : FillsSides own opposite ownId oppositeId) {market : Market}
    (hevent : ∀ i m p q t, ownId (event i m p q t) = i.id ∧ oppositeId (event i m p q t) = m.id ∧
    (event i m p q t).market = market ∧ (event i m p q t).quantity = q) {b : OrderBook} {t : Order}
    {key' : K'} (hfind : (own b).find? (fun x => decide (x.id = t.id)) = some (key', t)) (hpos : 0 <
    t.remaining) (hmarket : t.market = market) (hs : Replayable market t ⟨t, opposite b, []⟩) :
    ∃ b', (matchLoop crosses event now t (opposite b)).events.foldlM applyMatchFill b =
    .ok b' ∧ own b' =
    leaveRest (own b) key' t (matchLoop crosses event now t (opposite b)).incoming.remaining ∧
    opposite b' = (matchLoop crosses event now t (opposite b)).passive := by
  refine And.right (a := Replayable market t (matchLoop crosses event now t (opposite b))) ?_
  refine Loop.iterate_invariant
    (P := fun s : MatchState K => Replayable market t s ∧
      ∃ b', s.events.foldlM applyMatchFill b = .ok b' ∧
        own b' = leaveRest (own b) key' t s.incoming.remaining ∧ opposite b' = s.passive)
    ?_ _ ⟨hs, b, rfl, ?_, rfl⟩
  · rintro s s' ⟨hs, b₁, hfold, hown, hopposite⟩ h
    obtain ⟨key, maker, hrem, hcand, -, rfl⟩ := matchStep_eq_some h
    have hmem := SortedMap.mem_of_find?_eq_some hcand
    have hmaker := SortedMap.mem_values.mpr ⟨key, hmem⟩
    refine ⟨hs.round hmem, ?_⟩
    -- the incoming order rests in the replayed book with what the loop has left of it
    rw [leaveRest, if_pos hrem, ← hs.incoming_eq] at hown
    set q := min s.incoming.remaining maker.remaining with hq
    set ev := event (s.incoming.withRemaining (s.incoming.remaining - q))
      (maker.withRemaining (maker.remaining - q)) (execPrice maker s.incoming) q
      (now s.events.length) with hev
    obtain ⟨hownId, hoppositeId, hevMarket, hevQty⟩ := hevent
      (s.incoming.withRemaining (s.incoming.remaining - q))
      (maker.withRemaining (maker.remaining - q)) (execPrice maker s.incoming) q
      (now s.events.length)
    rw [← hev] at hownId hoppositeId hevMarket hevQty
    have hid : s.incoming.id = t.id := by rw [hs.incoming_eq, Order.withRemaining_id]
    have hfindOwn : (own b₁).find? (fun x => decide (x.id = ownId ev)) =
        some (key', s.incoming) := by
      rw [hown, hownId, Order.withRemaining_id, hid]
      exact find?_insert_of_find? hfind (decide_eq_true hid)
    have hfindOpposite : (opposite b₁).find? (fun x => decide (x.id = oppositeId ev)) =
        some (key, maker) := by
      rw [hopposite, hoppositeId]
      exact find?_id hs.ids hmem
    have hownMarket : s.incoming.market = ev.market := by
      rw [hs.incoming_eq, Order.withRemaining_market, hmarket, hevMarket]
    have hmakerMarket : maker.market = ev.market := by
      rw [hs.market_eq maker hmaker, hevMarket]
    obtain ⟨b₂, hok, hown₂, hopposite₂⟩ := hfill b₁ ev key' s.incoming key maker hfindOwn
      hfindOpposite hownMarket hmakerMarket
      (hevQty.symm ▸ lt_min hrem (hs.positive maker hmaker))
      (hevQty.symm ▸ min_le_left _ _) (hevQty.symm ▸ min_le_right _ _)
    refine ⟨b₂, ?_, ?_, ?_⟩
    · change (s.events ++ [ev]).foldlM applyMatchFill b = .ok b₂
      rw [foldlM_append, hfold]
      change ([ev].foldlM applyMatchFill b₁) = .ok b₂
      rw [foldlM_cons, hok]
      rfl
    · rw [hown₂, hown, leaveRest_insert, hevQty, hs.incoming_eq]
      rfl
    · rw [hopposite₂, hopposite, hevQty, matchRound_passive]
  · rw [leaveRest, if_pos hpos]
    exact (SortedMap.insert_of_mem (SortedMap.mem_of_find?_eq_some hfind)).symm

end Sides

namespace OrderBook

variable {b book : OrderBook} {id : OrderId} {t : Order}

variable {o : Order} {r : Quantity} {market : Market}

theorem putBack_of_buy (h : o.side = .buy) : (b.putBack o).bids = (if o.remaining ≠
    0 then b.bids.insert (BidKey.fromOrder o) o else b.bids) ∧ (b.putBack o).asks = b.asks := by
  unfold putBack
  split_ifs
  · exact insert_of_buy h
  · exact ⟨rfl, rfl⟩

theorem putBack_of_sell (h : o.side = .sell) : (b.putBack o).asks = (if o.remaining ≠
    0 then b.asks.insert (AskKey.fromOrder o) o else b.asks) ∧ (b.putBack o).bids = b.bids := by
  unfold putBack
  split_ifs
  · exact insert_of_sell h
  · exact ⟨rfl, rfl⟩

theorem putBack_eq_leaveRest {K : Type}
    [LinearOrder K] (m : SortedMap K Order) (key : K) (o : Order) (hr : 0 ≤ r) : (if r ≠ 0 then
    (m.remove key).insert key (o.withRemaining r) else m.remove key) = leaveRest m key o r := by
  rw [leaveRest, insert_remove]
  by_cases hzero : r = 0
  · rw [if_neg (not_not.mpr hzero), if_neg hzero.le.not_gt]
  · rw [if_pos hzero, if_pos (lt_of_le_of_ne hr (Ne.symm hzero))]

theorem fillsSides_buy : FillsSides bids asks MatchEvent.bidOrderId MatchEvent.askOrderId := by
  intro b ev bidKey bid askKey ask hbid hask hbidMarket haskMarket hq hbidRem haskRem
  obtain ⟨hbidKey, hbidSide⟩ : bidKey = BidKey.fromOrder bid ∧ bid.side = .buy :=
    b.bids_keyed _ (SortedMap.mem_of_find?_eq_some hbid)
  obtain ⟨haskKey, haskSide⟩ : askKey = AskKey.fromOrder ask ∧ ask.side = .sell :=
    b.asks_keyed _ (SortedMap.mem_of_find?_eq_some hask)
  have hmarkets : ¬ (bid.market ≠ ev.market ∨ ask.market ≠ ev.market) :=
    not_or.mpr ⟨not_not.mpr hbidMarket, not_not.mpr haskMarket⟩
  have henough : ¬ (bid.remaining < ev.quantity ∨ ask.remaining < ev.quantity) :=
    not_or.mpr ⟨not_lt.mpr hbidRem, not_lt.mpr haskRem⟩
  have hbidRest : (bid.withRemaining (bid.remaining - ev.quantity)).side = .buy := hbidSide
  have haskRest : (ask.withRemaining (ask.remaining - ev.quantity)).side = .sell := haskSide
  refine ⟨(((b.removeBid bidKey).removeAsk askKey).putBack
    (bid.withRemaining (bid.remaining - ev.quantity))).putBack
      (ask.withRemaining (ask.remaining - ev.quantity)), ?_, ?_, ?_⟩
  · simp only [applyMatchFill, if_neg (not_le.mpr hq), hbid, hask, if_neg hmarkets,
      if_neg henough]
  · rw [(putBack_of_sell haskRest).2, (putBack_of_buy hbidRest).1,
      BidKey.fromOrder_withRemaining, ← hbidKey]
    exact putBack_eq_leaveRest b.bids bidKey bid (sub_nonneg.mpr hbidRem)
  · rw [(putBack_of_sell haskRest).1, (putBack_of_buy hbidRest).2,
      AskKey.fromOrder_withRemaining, ← haskKey]
    exact putBack_eq_leaveRest b.asks askKey ask (sub_nonneg.mpr haskRem)

theorem fillsSides_sell : FillsSides asks bids MatchEvent.askOrderId MatchEvent.bidOrderId := by
  intro b ev askKey ask bidKey bid hask hbid haskMarket hbidMarket hq haskRem hbidRem
  obtain ⟨b', hok, hbids, hasks⟩ := fillsSides_buy b ev bidKey bid askKey ask hbid hask
    hbidMarket haskMarket hq hbidRem haskRem
  exact ⟨b', hok, hasks, hbids⟩

theorem removeOrderById_sides (h : b.removeOrderById id = some (t, book)) :
    (t.side = .buy ∧ b.bids.find? (fun x => decide (x.id = t.id)) = some (BidKey.fromOrder t, t) ∧
    book = b.removeBid (BidKey.fromOrder t)) ∨ t.side = .sell ∧ b.asks.find? (fun x => decide
    (x.id = t.id)) = some (AskKey.fromOrder t, t) ∧ book = b.removeAsk (AskKey.fromOrder t) := by
  obtain ⟨rfl, -, -⟩ := removeOrderById_eq_some h
  unfold removeOrderById at h
  split at h
  · rename_i key bid hfind
    cases h
    obtain ⟨hkey, hside⟩ := b.bids_keyed _ (SortedMap.mem_of_find?_eq_some hfind)
    refine Or.inl ⟨hside, ?_, congrArg b.removeBid hkey⟩
    rw [hfind, ← hkey]
  · split at h
    · rename_i key ask hfind
      cases h
      obtain ⟨hkey, hside⟩ := b.asks_keyed _ (SortedMap.mem_of_find?_eq_some hfind)
      refine Or.inr ⟨hside, ?_, congrArg b.removeAsk hkey⟩
      rw [hfind, ← hkey]
    · cases h

theorem insertRest_of_buy (h : t.side = .buy) : (b.insertRest (t.withRemaining r)).bids =
    (if 0 < r then b.bids.insert (BidKey.fromOrder t) (t.withRemaining r) else b.bids) ∧
    (b.insertRest (t.withRemaining r)).asks = b.asks := by
  unfold insertRest
  rw [Order.withRemaining_remaining]
  split_ifs
  · exact insert_of_buy (o := t.withRemaining r) h
  · exact ⟨rfl, rfl⟩

theorem insertRest_of_sell (h : t.side = .sell) : (b.insertRest (t.withRemaining r)).asks =
    (if 0 < r then b.asks.insert (AskKey.fromOrder t) (t.withRemaining r) else b.asks) ∧
    (b.insertRest (t.withRemaining r)).bids = b.bids := by
  unfold insertRest
  rw [Order.withRemaining_remaining]
  split_ifs
  · exact insert_of_sell (o := t.withRemaining r) h
  · exact ⟨rfl, rfl⟩

/-- The events of a match can be replayed from the book it starts from, and lead to the
book it leaves. -/
theorem foldlM_applyMatchFill {now : ℕ → ℕ} (h : b.removeOrderById id = some (t, book))
    (hpos : 0 < t.remaining) (hmarket : t.market = market)
    (hids : ((b.ordersOn t.side.opposite).map Order.id).Nodup) (hopposite : ∀ m ∈
    b.ordersOn t.side.opposite, 0 < m.remaining ∧ m.market = market) : (b.matchOrders
    market now id).1.foldlM applyMatchFill b = .ok (b.matchOrders market now id).2 := by
  rw [matchOrders, h]
  rcases removeOrderById_sides h with ⟨hs, hfind, rfl⟩ | ⟨hs, hfind, rfl⟩
  · rw [hs] at hids hopposite
    simp only [hs]
    obtain ⟨b', hfold, hbids, hasks⟩ := foldlM_matchLoop (buyEvent market) now
      priceBuyCrosses fillsSides_buy
      (fun _ _ _ _ _ => ⟨rfl, rfl, rfl, rfl⟩) hfind hpos hmarket
      ⟨rfl, hids, fun m hm => (hopposite m hm).1, fun m hm => (hopposite m hm).2⟩
    refine hfold.trans (congrArg Except.ok ?_)
    obtain ⟨r, hr⟩ : ∃ r, ((b.removeBid (BidKey.fromOrder t)).matchBuy market now t).incoming =
      t.withRemaining r := matchLoop_incoming t b.asks
    obtain ⟨hown, hother⟩ := insertRest_of_buy (r := r) hs
      (b := (b.removeBid (BidKey.fromOrder t)).afterBuy market now t)
    have hrest : (matchLoop priceBuyCrosses (buyEvent market) now t b.asks).incoming.remaining =
        r := congrArg Order.remaining hr
    rw [hr]
    refine eq_of_sides ?_ (hasks.trans hother.symm)
    rw [hbids, hrest, hown, leaveRest, ← insert_remove]
    rfl
  · rw [hs] at hids hopposite
    simp only [hs]
    obtain ⟨b', hfold, hasks, hbids⟩ := foldlM_matchLoop (sellEvent market) now
      priceSellCrosses fillsSides_sell
      (fun _ _ _ _ _ => ⟨rfl, rfl, rfl, rfl⟩) hfind hpos hmarket
      ⟨rfl, hids, fun m hm => (hopposite m hm).1, fun m hm => (hopposite m hm).2⟩
    refine hfold.trans (congrArg Except.ok ?_)
    obtain ⟨r, hr⟩ : ∃ r, ((b.removeAsk (AskKey.fromOrder t)).matchSell market now t).incoming =
      t.withRemaining r := matchLoop_incoming t b.bids
    obtain ⟨hown, hother⟩ := insertRest_of_sell (r := r) hs
      (b := (b.removeAsk (AskKey.fromOrder t)).afterSell market now t)
    have hrest : (matchLoop priceSellCrosses (sellEvent market) now t b.bids).incoming.remaining =
        r := congrArg Order.remaining hr
    rw [hr]
    refine eq_of_sides (hbids.trans hother.symm) ?_
    rw [hasks, hrest, hown, leaveRest, ← SortedMap.insert_remove]
    rfl

theorem ordersOn_insert_opposite (b : OrderBook) (o : Order) :
    (b.insert o).ordersOn o.side.opposite = b.ordersOn o.side.opposite := by
  cases hs : o.side with
  | buy => exact congrArg values (insert_of_buy hs).2
  | sell => exact congrArg values (insert_of_sell hs).2

theorem ordersOn_insert_perm (b : OrderBook) (o : Order) :
    ∃ l, l.Sublist (b.ordersOn o.side) ∧ ((b.insert o).ordersOn o.side).Perm (o :: l) := by
  cases hs : o.side with
  | buy =>
    have hperm := b.bids_keyed.values_insert_perm o
    rw [← (insert_of_buy hs).1] at hperm
    exact ⟨_, filter_sublist, hperm⟩
  | sell =>
    have hperm := b.asks_keyed.values_insert_perm o
    rw [← (insert_of_sell hs).1] at hperm
    exact ⟨_, filter_sublist, hperm⟩

theorem ids_nodup_opposite (hid : b.DistinctIds) (h : (b.insert o).removeOrderById o.id = some (t,
    book)) : (((b.insert o).ordersOn t.side.opposite).map Order.id).Nodup := by
  obtain ⟨hto, htmem, -⟩ := removeOrderById_eq_some h
  by_cases hside : t.side = o.side
  · rw [hside, ordersOn_insert_opposite]
    exact hid.ordersOn _
  · -- the order found is one of the book, and no other has its id
    have hopposite : t.side.opposite = o.side := by
      cases hts : t.side <;> cases hos : o.side <;> simp_all [Side.opposite]
    have ht : t ∈ b.orders := by
      rcases mem_of_mem_insert htmem with rfl | ht
      · exact absurd rfl hside
      · exact ht
    obtain ⟨l, hl, hperm⟩ := b.ordersOn_insert_perm o
    rw [hopposite, (hperm.map Order.id).nodup_iff, map_cons, nodup_cons]
    refine ⟨fun hmem => ?_, (hid.ordersOn _).sublist (hl.map _)⟩
    obtain ⟨x, hx, hxo⟩ := mem_map.mp hmem
    have hxside := side_of_mem_ordersOn (hl.subset hx)
    rw [hid.eq_of_id_eq (mem_orders_of_mem_ordersOn (hl.subset hx)) ht (hxo.trans hto.symm)]
      at hxside
    exact hside hxside

/-- For a book of one market with distinct ids and positive remainders, and an order of
the market that has something left. -/
theorem foldlM_insertAndMatch (hid : b.DistinctIds) (hpos : b.PositiveRemaining)
    (hmarket : ∀ x ∈ b.orders, x.market = market) (ho : o.market = market) (hopos : 0 < o.remaining)
    (now : ℕ → ℕ) : (b.insertAndMatch market now o).1.foldlM applyMatchFill (b.insert o) =
    .ok (b.insertAndMatch market now o).2 := by
  have hall : ∀ x ∈ (b.insert o).orders, 0 < x.remaining ∧ x.market = market := by
    intro x hx
    rcases mem_of_mem_insert hx with rfl | hx
    · exact ⟨hopos, ho⟩
    · exact ⟨hpos x hx, hmarket x hx⟩
  rw [insertAndMatch]
  cases h : (b.insert o).removeOrderById o.id with
  | none =>
    rw [matchOrders, h]
    rfl
  | some found =>
    obtain ⟨t, book⟩ := found
    obtain ⟨-, ht, -⟩ := removeOrderById_eq_some h
    exact foldlM_applyMatchFill h (hall t ht).1 (hall t ht).2 (ids_nodup_opposite hid h)
      fun m hm => hall m (mem_orders_of_mem_ordersOn hm)

/-- The call on the book itself: both orders are taken out before they are checked, and
put back when the event does not fit them. -/
def applyMatchFillInPlace (b : OrderBook) (ev : MatchEvent) :
    OrderBook × Except FillError Unit :=
  if ev.quantity ≤ 0 then (b, .error .nonPositiveQuantity)
  else
    match b.bids.find? (fun o => decide (o.id = ev.bidOrderId)),
        b.asks.find? (fun o => decide (o.id = ev.askOrderId)) with
    | some (bidKey, bid), some (askKey, ask) =>
      let taken := (b.removeBid bidKey).removeAsk askKey
      if bid.market ≠ ev.market ∨ ask.market ≠ ev.market then
        ((taken.insert bid).insert ask,
          .error (.marketMismatch ev.market bid.market ask.market))
      else if bid.remaining < ev.quantity ∨ ask.remaining < ev.quantity then
        ((taken.insert bid).insert ask,
          .error (.insufficientRemaining bid.remaining ask.remaining ev.quantity))
      else
        ((taken.putBack (bid.withRemaining (bid.remaining - ev.quantity))).putBack
          (ask.withRemaining (ask.remaining - ev.quantity)), .ok ())
    | bid, ask => (b, .error (.missingOrder bid.isSome ask.isSome ev.bidOrderId ev.askOrderId))

theorem insert_taken {bidKey : BidKey} {askKey : AskKey} {bid ask : Order}
    (hbid : (bidKey, bid) ∈ b.bids.entries) (hask : (askKey, ask) ∈ b.asks.entries) :
    ((((b.removeBid bidKey).removeAsk askKey).insert bid).insert ask) = b := by
  obtain ⟨hbidKey, hbidSide⟩ : bidKey = BidKey.fromOrder bid ∧ bid.side = .buy :=
    b.bids_keyed _ hbid
  obtain ⟨haskKey, haskSide⟩ : askKey = AskKey.fromOrder ask ∧ ask.side = .sell :=
    b.asks_keyed _ hask
  apply eq_of_sides
  · rw [(insert_of_sell haskSide).2, (insert_of_buy hbidSide).1, ← hbidKey]
    exact (insert_remove _ _ _).trans (insert_of_mem hbid)
  · rw [(insert_of_sell haskSide).1, (insert_of_buy hbidSide).2, ← haskKey]
    exact (insert_remove _ _ _).trans (insert_of_mem hask)

theorem applyMatchFillInPlace_eq (b : OrderBook) (ev : MatchEvent) :
    b.applyMatchFillInPlace ev =
      match b.applyMatchFill ev with
      | .ok b' => (b', .ok ())
      | .error err => (b, .error err) := by
  unfold applyMatchFillInPlace applyMatchFill
  split_ifs with hq
  · rfl
  · cases hbid : b.bids.find? fun o => decide (o.id = ev.bidOrderId) with
    | none => rfl
    | some bid =>
      cases hask : b.asks.find? fun o => decide (o.id = ev.askOrderId) with
      | none => rfl
      | some ask =>
        have hback := insert_taken (SortedMap.mem_of_find?_eq_some hbid)
          (SortedMap.mem_of_find?_eq_some hask)
        dsimp only
        split_ifs
        · rw [hback]
        · rw [hback]
        · rfl

theorem applyMatchFillInPlace_error {ev : MatchEvent} {err : FillError}
    (h : (b.applyMatchFillInPlace ev).2 = .error err) : (b.applyMatchFillInPlace ev).1 = b := by
  rw [applyMatchFillInPlace_eq] at h ⊢
  cases hfill : b.applyMatchFill ev with
  | ok b' =>
    rw [hfill] at h
    cases h
  | error err => rfl

end OrderBook

namespace Engine

theorem foldlM_applyReplayEvent_of_applied {e : Engine} {pairs : List (ℕ × MatchEvent)}
    (h : ∀ p ∈ pairs, p.1 ∈ e.bookAppliedMatchEventIds) :
    pairs.foldlM (fun e p => e.applyReplayEvent p.1 p.2) e = .ok e := by
  induction pairs with
  | nil => rfl
  | cons p pairs ih =>
    rw [foldlM_cons, applyReplayEvent_of_applied _ (h p mem_cons_self)]
    exact ih fun p' hp' => h p' (mem_cons_of_mem p hp')

end Engine

/-- Replay refines matching: the events of an order that is matched in a book of its
market can be applied one after the other to the book with the order in it, and give the
book the match leaves; a fill that fails leaves the book; and events whose ids are
applied change neither the books nor the buffer, however often they are replayed. -/
theorem replay_refines_matching : (∀ (b : OrderBook) (market : Market), b.DistinctIds →
    b.PositiveRemaining → (∀ x ∈ b.orders, x.market = market) → ∀ o : Order, o.market = market →
    0 < o.remaining → ∀ now : ℕ → ℕ, ((b.insert o).matchOrders market now o.id).1.foldlM
    applyMatchFill (b.insert o) = .ok ((b.insert o).matchOrders market now o.id).2) ∧
    (∀ (b : OrderBook) (ev : MatchEvent) (err : FillError),
    (b.applyMatchFillInPlace ev).2 = .error err → (b.applyMatchFillInPlace ev).1 = b) ∧
    ∀ (e : Engine) (pairs : List (ℕ × MatchEvent)), (∀ p ∈ pairs, p.1 ∈
    e.bookAppliedMatchEventIds) → pairs.foldlM (fun e p => e.applyReplayEvent p.1 p.2) e = .ok e :=
  ⟨fun _ _ hid hpos hmarket _ ho hopos now =>
      foldlM_insertAndMatch hid hpos hmarket ho hopos now,
    fun _ _ _ h => applyMatchFillInPlace_error h,
    fun _ _ h => Engine.foldlM_applyReplayEvent_of_applied h⟩

def replayBook : OrderBook :=
  [⟨1, 10, "BTC_USDT", .sell, .limit, some 100, 1, 1, 5⟩,
    ⟨2, 11, "BTC_USDT", .sell, .limit, some 101, 3, 3, 6⟩].foldl OrderBook.insert .new

def replayOrder : Order := ⟨3, 12, "BTC_USDT", .buy, .limit, some 102, 2, 2, 7⟩

theorem replayBook_refines :
    ((replayBook.insert replayOrder).matchOrders "BTC_USDT" id replayOrder.id).1.map
      (fun ev => (ev.makerOrderId, ev.quantity)) = [(1, 1), (2, 1)] ∧
    ((replayBook.insert replayOrder).matchOrders "BTC_USDT" id replayOrder.id).1.foldlM
      applyMatchFill (replayBook.insert replayOrder) =
        .ok ((replayBook.insert replayOrder).matchOrders "BTC_USDT" id replayOrder.id).2 :=
  ⟨by decide +kernel, replay_refines_matching.1 replayBook "BTC_USDT" (by decide +kernel)
    (by decide +kernel) (by decide +kernel) replayOrder rfl (by decide +kernel) id⟩

def emptyOrder : Order := ⟨3, 12, "BTC_USDT", .buy, .limit, some 102, 2, 0, 7⟩

def foreignOrder : Order := ⟨3, 12, "ETH_USDT", .buy, .limit, some 102, 2, 2, 7⟩

/-- An order with nothing left is dropped by the match and stays in the replayed book; the
fills of an order of another market are refused. -/
theorem replay_differs :
    (replayBook.DistinctIds ∧ replayBook.PositiveRemaining ∧
      replayBook.orders.map Order.market = ["BTC_USDT", "BTC_USDT"]) ∧
    ((replayBook.insert emptyOrder).matchOrders "BTC_USDT" id emptyOrder.id).1 = [] ∧
    ((replayBook.insert emptyOrder).matchOrders "BTC_USDT" id emptyOrder.id).2.orders ≠
      (replayBook.insert emptyOrder).orders ∧
    (((replayBook.insert foreignOrder).matchOrders "BTC_USDT" id
      foreignOrder.id).1.foldlM applyMatchFill
        (replayBook.insert foreignOrder)).toBool = false := by
  decide +kernel

end MetherCEX
