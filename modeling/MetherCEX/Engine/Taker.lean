import MetherCEX.Engine.Provenance

/-!
# What an incoming order takes

The order that is placed is the taker of every event of its call, and the makers are orders of
other users on the opposite side whose prices it crosses.
-/

namespace MetherCEX

open List Order Order.Descends SortedMap

section MatchLoop

variable {K : Type} [LinearOrder K]
variable {crosses : Order → Order → Bool}
variable {event : Order → Order → Price → Quantity → ℕ → MatchEvent} {now : ℕ → ℕ}

def candidateQty (crosses : Order → Order → Bool) (incoming : Order)
    (passive : SortedMap K Order) : Quantity :=
  ((passive.values.filter (isCandidate crosses incoming)).map Order.remaining).sum

variable {incoming : Order} {passive : SortedMap K Order}

theorem candidateQty_perm {l : List (K × Order)} (h : passive.entries.Perm l) :
    candidateQty crosses incoming passive =
      (((l.map Prod.snd).filter (isCandidate crosses incoming)).map Order.remaining).sum :=
  (((h.map Prod.snd).filter _).map remaining).sum_eq

theorem candidateQty_remove {key : K} {maker : Order} (hmem : (key, maker) ∈ passive.entries)
    (hcand : isCandidate crosses incoming maker = true) : candidateQty crosses incoming passive =
    maker.remaining + candidateQty crosses incoming (passive.remove key) := by
  rw [candidateQty_perm (perm_cons_remove hmem)]
  simp [hcand, candidateQty, values]

theorem candidateQty_insert {key : K} {maker : Order} (hcand : isCandidate crosses incoming maker =
    true) : candidateQty crosses incoming (passive.insert key maker) =
    maker.remaining + candidateQty crosses incoming (passive.remove key) := by
  rw [candidateQty_perm (passive.insert_perm key maker)]
  simp [hcand, candidateQty, values]

/-- What the loop has done when it is in the state `s`. -/
structure Taking (crosses : Order → Order → Bool)
    (event : Order → Order → Price → Quantity → ℕ → MatchEvent) (incoming : Order)
    (passive : SortedMap K Order) (s : MatchState K) : Prop where
  incoming_eq : s.incoming = incoming.withRemaining s.incoming.remaining
  passive_from : ∀ x ∈ s.passive.values, ∃ y ∈ passive.values, x.Descends y
  makers : ∀ ev ∈ s.events, ∃ m ∈ passive.values, isCandidate crosses incoming m = true ∧
    ∃ p q t, ev = event incoming m p q t
  total : (s.events.map MatchEvent.quantity).sum + s.incoming.remaining = incoming.remaining
  nonneg : 0 ≤ incoming.remaining → 0 ≤ s.incoming.remaining
  candidates : candidateQty crosses incoming s.passive - s.incoming.remaining =
    candidateQty crosses incoming passive - incoming.remaining

section Rounds

variable (hcross : ∀ i r m r', crosses (Order.withRemaining i r) (Order.withRemaining m r') =
  crosses i m)
variable (hevent : ∀ i r m r' p q t,
  event (Order.withRemaining i r) (Order.withRemaining m r') p q t = event i m p q t)
variable (hqty : ∀ i m p q t, (event i m p q t).quantity = q)

include hcross

theorem isCandidate_rest (incoming m : Order) (r r' : Quantity) : isCandidate
    crosses (incoming.withRemaining r) (m.withRemaining r') = isCandidate crosses incoming m := by
  rw [isCandidate, isCandidate, hcross, withRemaining_userId, withRemaining_userId]

variable (event now) in
theorem candidateQty_matchRound {s : MatchState K} {key : K} {maker : Order} (hmem : (key,
    maker) ∈ s.passive.entries) (hcand : isCandidate crosses s.incoming maker = true) :
    candidateQty crosses s.incoming (matchRound event now s key maker).passive =
    candidateQty crosses s.incoming s.passive - min s.incoming.remaining maker.remaining := by
  rw [candidateQty_remove hmem hcand]
  by_cases hrest : 0 < maker.remaining - min s.incoming.remaining maker.remaining
  · have hcand' : isCandidate crosses s.incoming (maker.withRemaining
        (maker.remaining - min s.incoming.remaining maker.remaining)) = true :=
      (isCandidate_rest hcross s.incoming maker s.incoming.remaining _).trans hcand
    rw [matchRound_passive_of_rest hrest, candidateQty_insert hcand',
      withRemaining_remaining]
    ring
  · have hfull : maker.remaining = min s.incoming.remaining maker.remaining :=
      le_antisymm (sub_nonpos.mp (not_lt.mp hrest)) (min_le_right _ _)
    rw [matchRound_passive_of_full hrest, ← hfull]
    ring

include hevent hqty

theorem Taking.step {incoming : Order} {passive : SortedMap K Order} {s s' : MatchState K}
    (hs : Taking crosses event incoming passive s) (h : matchStep crosses event now s = some s') :
    Taking crosses event incoming passive s' := by
  obtain ⟨key, maker, hpos, hfind, -, rfl⟩ := matchStep_eq_some h
  have hmem := SortedMap.mem_of_find?_eq_some hfind
  have hcand : isCandidate crosses s.incoming maker = true := SortedMap.find?_some hfind
  have hsame : ∀ m, isCandidate crosses s.incoming m = isCandidate crosses incoming m := by
    intro m
    rw [hs.incoming_eq]
    exact isCandidate_rest hcross incoming m _ m.remaining
  have hqtys : ∀ p : SortedMap K Order,
      candidateQty crosses s.incoming p = candidateQty crosses incoming p := by
    intro p
    rw [candidateQty, candidateQty, funext hsame]
  obtain ⟨y, hy, hdesc⟩ := hs.passive_from maker (mem_values.mpr ⟨key, hmem⟩)
  refine ⟨?_, fun x hx => ?_, fun ev hev => ?_, ?_, fun _ => ?_, ?_⟩
  · change s.incoming.withRemaining _ = _
    rw [hs.incoming_eq]
    rfl
  · obtain ⟨z, hz, hxz⟩ := mem_matchRound_passive hmem hx
    obtain ⟨w, hw, hzw⟩ := hs.passive_from z hz
    exact ⟨w, hw, hxz.trans hzw⟩
  · rcases mem_append.mp hev with hev | hev
    · exact hs.makers ev hev
    · refine ⟨y, hy, ?_, execPrice maker s.incoming, min s.incoming.remaining maker.remaining,
        now s.events.length, ?_⟩
      · rw [← hcand, hsame maker, hdesc.1]
        exact (isCandidate_rest hcross incoming y incoming.remaining _).symm
      · rw [mem_singleton.mp hev]
        nth_rewrite 1 [hs.incoming_eq]
        rw [hdesc.1]
        exact hevent incoming _ y _ _ _ _
  · have htotal := hs.total
    simp only [matchRound, map_append, map_cons, map_nil, sum_append,
      sum_cons, sum_nil, hqty, withRemaining_remaining]
    linarith
  · exact sub_nonneg.mpr (min_le_left _ _)
  · have hround := candidateQty_matchRound event now hcross hmem hcand
    rw [hqtys, hqtys] at hround
    rw [hround, ← hs.candidates]
    simp only [matchRound, withRemaining_remaining]
    ring

variable (now) in
theorem matchLoop_taking (incoming : Order) (passive : SortedMap K Order) :
    Taking crosses event incoming passive (matchLoop crosses event now incoming passive) := by
  apply Loop.iterate_invariant (P := Taking crosses event incoming passive)
  · exact fun s s' hs h => hs.step hcross hevent hqty h
  · exact ⟨rfl, fun x hx => ⟨x, hx, refl x⟩, fun ev hev => absurd hev
      not_mem_nil, by simp, fun h => h, rfl⟩

variable (now) in
/-- With enough left among its candidates the incoming order is filled completely. -/
theorem matchLoop_filled (incoming : Order) (passive : SortedMap K Order)
    (hpos : ∀ x ∈ passive.values, 0 < x.remaining) (hnonneg : 0 ≤ incoming.remaining)
    (hqtys : incoming.remaining ≤ candidateQty crosses incoming passive) :
    (matchLoop crosses event now incoming passive).incoming.remaining = 0 := by
  have htaking := matchLoop_taking now hcross hevent hqty incoming passive
  have hstopped : matchStep crosses event now (matchLoop crosses event now incoming passive) =
      none := matchLoop_stopped incoming passive
  set s := matchLoop crosses event now incoming passive
  apply le_antisymm _ (htaking.nonneg hnonneg)
  by_contra hopen
  have hopen : 0 < s.incoming.remaining := not_le.mp hopen
  -- the loop ended with a part still open, so no candidate is left
  have hnone : s.passive.find? (isCandidate crosses s.incoming) = none := by
    cases hfind : s.passive.find? (isCandidate crosses s.incoming) with
    | none => rfl
    | some entry =>
      obtain ⟨y, hy, hdesc⟩ := htaking.passive_from entry.2
        (SortedMap.mem_values.mpr ⟨entry.1, SortedMap.mem_of_find?_eq_some hfind⟩)
      have hmaker : 0 < entry.2.remaining := hdesc.2 (hpos y hy)
      rw [matchStep, if_pos hopen, hfind] at hstopped
      simp [(lt_min hopen hmaker).ne'] at hstopped
  have hempty : candidateQty crosses incoming s.passive = 0 := by
    have hfilter : s.passive.values.filter (isCandidate crosses incoming) = [] := by
      rw [filter_eq_nil_iff]
      intro x hx hcand
      have hsome := find?_eq_none.mp hnone x hx
      rw [htaking.incoming_eq] at hsome
      have hrest := isCandidate_rest hcross incoming x s.incoming.remaining x.remaining
      rw [withRemaining_self, hcand] at hrest
      rw [hrest] at hsome
      cases hsome
    rw [candidateQty, hfilter]
    rfl
  have hcandidates := htaking.candidates
  rw [hempty] at hcandidates
  linarith

end Rounds

end MatchLoop

section Fresh

variable {K : Type} [LinearOrder K] {m : SortedMap K Order} {o : Order}

theorem find?_insert_of_fresh {key : K} (h : ∀ x ∈ m.values, x.id ≠ o.id) :
    (m.insert key o).find? (fun x => decide (x.id = o.id)) = some (key, o) := by
  have hself : o ∈ (m.insert key o).values :=
    mem_values.mpr ⟨key, mem_insert.mpr (Or.inl rfl)⟩
  obtain ⟨e, he⟩ := find?_isSome_of_mem (p := fun x => decide (x.id = o.id)) hself
    (by simp)
  rw [he]
  rcases SortedMap.mem_insert.mp (SortedMap.mem_of_find?_eq_some he) with rfl | ⟨hold, -⟩
  · rfl
  · have hid : e.2.id = o.id := by simpa using SortedMap.find?_some he
    exact absurd hid (h e.2 (SortedMap.mem_values.mpr ⟨e.1, hold⟩))

theorem remove_insert_of_fresh {keyOf : Order → K} {side : Side}
    (hkeyed : KeyedBy keyOf side m) (hkey : ∀ x y, keyOf x = keyOf y → x.id = y.id)
    (h : ∀ x ∈ m.values, x.id ≠ o.id) : (m.insert (keyOf o) o).remove (keyOf o) = m := by
  rw [remove_insert]
  apply remove_of_not_mem
  intro hmem
  obtain ⟨e, he, heq⟩ := mem_map.mp hmem
  rw [(hkeyed e he).1] at heq
  exact h e.2 (mem_values.mpr ⟨e.1, he⟩) (hkey e.2 o heq)

end Fresh

namespace OrderBook

variable {b : OrderBook} {o : Order}

theorem eq_of_sides {b b' : OrderBook} (hbids : b.bids = b'.bids) (hasks : b.asks = b'.asks) :
    b = b' := by
  cases b
  cases b'
  cases hbids
  cases hasks
  rfl

section Fresh

variable (hfresh : ∀ x ∈ b.orders, x.id ≠ o.id)

include hfresh

theorem removeOrderById_insert : (b.insert o).removeOrderById o.id = some (o, b) := by
  have hbids : ∀ x ∈ b.bids.values, x.id ≠ o.id :=
    fun x hx => hfresh x (mem_orders_of_mem_ordersOn (s := .buy) hx)
  have hasks : ∀ x ∈ b.asks.values, x.id ≠ o.id :=
    fun x hx => hfresh x (mem_orders_of_mem_ordersOn (s := .sell) hx)
  cases hs : o.side with
  | buy =>
    obtain ⟨hins, hother⟩ := insert_of_buy (b := b) hs
    rw [removeOrderById, hins, find?_insert_of_fresh hbids]
    refine congrArg (fun x => some (o, x)) (eq_of_sides ?_ hother)
    change (b.insert o).bids.remove _ = b.bids
    rw [hins]
    exact remove_insert_of_fresh b.bids_keyed
      (fun x y h => congrArg PriceKey.orderId h) hbids
  | sell =>
    obtain ⟨hins, hother⟩ := insert_of_sell (b := b) hs
    have hnone : (b.insert o).bids.find? (fun x => decide (x.id = o.id)) = none := by
      rw [hother]
      exact find?_eq_none.mpr fun x hx => decide_eq_false (hbids x hx)
    rw [removeOrderById, hnone, hins, find?_insert_of_fresh hasks]
    refine congrArg (fun x => some (o, x)) (eq_of_sides hother ?_)
    change (b.insert o).asks.remove _ = b.asks
    rw [hins]
    exact remove_insert_of_fresh b.asks_keyed
      (fun x y h => congrArg PriceKey.orderId h) hasks

end Fresh

def liquidity (b : OrderBook) (o : Order) : Quantity :=
  ((eligibleMakers b o).map Order.remaining).sum

/-- The incoming order `o` met the book `b`, caused the events `es` and left the book
`b'`. -/
structure TakerOutcome (b : OrderBook) (o : Order) (es : List MatchEvent) (b' : OrderBook) :
    Prop where
  makers : ∀ ev ∈ es, ev.takerOrderId = o.id ∧ ∃ m ∈ eligibleMakers b o,
    ∀ z, ev.Names z ↔ z = o.id ∨ z = m.id
  from_before : ∀ x ∈ b'.orders, (∃ y ∈ b.orders, x.Descends y) ∨
    x = o.withRemaining (o.remaining - filledQty o.id es) ∧ 0 < o.remaining - filledQty o.id es
  filled : b.PositiveRemaining → 0 ≤ o.remaining → o.remaining ≤ b.liquidity o →
    filledQty o.id es = o.remaining

theorem filledQty_eq_sum {x : OrderId} {es : List MatchEvent} (h : ∀ ev ∈ es, ev.Names x) :
    filledQty x es = (es.map MatchEvent.quantity).sum := by
  have hall : es.filter (fun ev => decide (ev.Names x)) = es :=
    filter_eq_self.mpr fun ev hev => decide_eq_true (h ev hev)
  rw [filledQty, hall]

theorem takerOutcome_of_loop {K : Type}
    [LinearOrder K] {passive : SortedMap K Order} {market : Market} {now : ℕ → ℕ} {b' : OrderBook}
    (hpassive : passive.values = b.ordersOn o.side.opposite) (hb' : ∀ x ∈ b'.orders, x ∈ b.orders ∨
    x ∈ (matchLoop (crossesOf o.side) (eventOf market o) now o passive).passive.values ∨
    x = (matchLoop (crossesOf o.side) (eventOf market o) now o passive).incoming ∧
    0 < (matchLoop (crossesOf o.side) (eventOf market o) now o passive).incoming.remaining) :
    TakerOutcome b o (matchLoop (crossesOf o.side) (eventOf market o) now o passive).events b' := by
  have hcross : ∀ i r m r', crossesOf o.side (withRemaining i r)
      (withRemaining m r') = crossesOf o.side i m := by
    intro i r m r'
    cases o.side <;> rfl
  have hevent : ∀ i r m r' p q t, eventOf market o (withRemaining i r)
      (withRemaining m r') p q t = eventOf market o i m p q t := by
    intro i r m r' p q t
    unfold eventOf
    cases o.side <;> rfl
  have hqty : ∀ i m p q t, (eventOf market o i m p q t).quantity = q := by
    intro i m p q t
    unfold eventOf
    cases o.side <;> rfl
  have htaking := matchLoop_taking now hcross hevent hqty o passive
  have hfilled := matchLoop_filled now hcross hevent hqty o passive
  set s := matchLoop (crossesOf o.side) (eventOf market o) now o passive
  have hmakers : ∀ ev ∈ s.events, ev.takerOrderId = o.id ∧ ∃ m ∈ eligibleMakers b o,
      ∀ z, ev.Names z ↔ z = o.id ∨ z = m.id := by
    intro ev hev
    obtain ⟨m, hm, hcand, p, q, t, rfl⟩ := htaking.makers ev hev
    refine ⟨?_, m, ?_, eventOf_names market o m p q t⟩
    · unfold eventOf
      cases o.side <;> rfl
    · rw [eligibleMakers_eq, mem_filter, ← hpassive]
      exact ⟨hm, hcand⟩
  have htotal : filledQty o.id s.events + s.incoming.remaining = o.remaining := by
    rw [filledQty_eq_sum, htaking.total]
    intro ev hev
    obtain ⟨-, m, -, hnames⟩ := hmakers ev hev
    exact (hnames o.id).mpr (Or.inl rfl)
  refine ⟨hmakers, fun x hx => ?_, fun hpos hnonneg hliq => ?_⟩
  · rcases hb' x hx with hx | hx | ⟨rfl, hpos⟩
    · exact Or.inl ⟨x, hx, refl x⟩
    · obtain ⟨y, hy, hxy⟩ := htaking.passive_from x hx
      rw [hpassive] at hy
      exact Or.inl ⟨y, mem_orders_of_mem_ordersOn hy, hxy⟩
    · have hrest : o.remaining - filledQty o.id s.events = s.incoming.remaining := by
        linarith
      rw [hrest]
      exact Or.inr ⟨htaking.incoming_eq, hpos⟩
  · have hcandidates : b.liquidity o = candidateQty (crossesOf o.side) o passive := by
      rw [liquidity, eligibleMakers_eq, candidateQty, hpassive]
    rw [hcandidates] at hliq
    rw [hpassive] at hfilled
    have hdone := hfilled (fun x hx => hpos x (mem_orders_of_mem_ordersOn hx)) hnonneg hliq
    linarith

theorem mem_insertRest_of_mem {x : Order} {b₁ : OrderBook} {incoming : Order} (hx : x ∈
    (b₁.insertRest incoming).orders) : x ∈ b₁.orders ∨ x = incoming ∧ 0 < incoming.remaining := by
  unfold insertRest at hx
  split_ifs at hx with hpos
  · exact (mem_of_mem_insert hx).symm.imp_right fun h => ⟨h, hpos⟩
  · exact Or.inl hx

theorem insertAndMatch_takes (hfresh : ∀ x ∈ b.orders, x.id ≠ o.id) (market : Market) (now : ℕ →
    ℕ) : TakerOutcome b o (b.insertAndMatch market now o).1 (b.insertAndMatch market now o).2 := by
  rw [insertAndMatch, matchOrders, removeOrderById_insert hfresh]
  cases hs : o.side with
  | buy =>
    have hloop : b.matchBuy market now o =
        matchLoop (crossesOf o.side) (eventOf market o) now o b.asks := by
      rw [eventOf, hs]
      rfl
    simp only [hs]
    rw [hloop]
    apply takerOutcome_of_loop
    · rw [hs]
      rfl
    · intro x hx
      rw [← hloop]
      rcases mem_insertRest_of_mem (hloop ▸ hx) with hx | hx
      · rcases mem_append.mp hx with hx | hx
        · exact Or.inl (mem_orders_of_mem_ordersOn (s := .buy) hx)
        · exact Or.inr (Or.inl hx)
      · exact Or.inr (Or.inr hx)
  | sell =>
    have hloop : b.matchSell market now o =
        matchLoop (crossesOf o.side) (eventOf market o) now o b.bids := by
      rw [eventOf, hs]
      rfl
    simp only [hs]
    rw [hloop]
    apply takerOutcome_of_loop
    · rw [hs]
      rfl
    · intro x hx
      rw [← hloop]
      rcases mem_insertRest_of_mem (hloop ▸ hx) with hx | hx
      · rcases mem_append.mp hx with hx | hx
        · exact Or.inr (Or.inl hx)
        · exact Or.inl (mem_orders_of_mem_ordersOn (s := .sell) hx)
      · exact Or.inr (Or.inr hx)

theorem insertAndMatch_of_nonpos (hfresh : ∀ x ∈ b.orders, x.id ≠ o.id) (hzero : ¬ 0 < o.remaining)
    (market : Market) (now : ℕ → ℕ) : b.insertAndMatch market now o = ([], b) := by
  have hbuy : b.matchBuy market now o = ⟨o, b.asks, []⟩ :=
    Loop.iterate_of_none (by rw [matchStep, if_neg hzero]) _
  have hsell : b.matchSell market now o = ⟨o, b.bids, []⟩ :=
    Loop.iterate_of_none (by rw [matchStep, if_neg hzero]) _
  rw [insertAndMatch, matchOrders, removeOrderById_insert hfresh]
  cases hs : o.side with
  | buy =>
    simp only [hs, hbuy, insertRest, if_neg hzero]
    exact congrArg (Prod.mk []) (eq_of_sides rfl (congrArg MatchState.passive hbuy))
  | sell =>
    simp only [hs, hsell, insertRest, if_neg hzero]
    exact congrArg (Prod.mk []) (eq_of_sides (congrArg MatchState.passive hsell) rfl)

theorem taker_of_mem_matchOrders {market : Market} {now : ℕ → ℕ} {id : OrderId}
    {ev : MatchEvent} (hev : ev ∈ (b.matchOrders market now id).1) :
    ev.takerOrderId = id ∧ ev.Names ev.takerOrderId ∧ ev.Names ev.makerOrderId := by
  unfold matchOrders at hev
  split at hev
  · exact nomatch hev
  · rename_i incoming book hremove
    obtain ⟨rfl, -, -⟩ := removeOrderById_eq_some hremove
    split at hev
    · have htaking : Taking priceBuyCrosses (buyEvent market) incoming book.asks
          (matchLoop priceBuyCrosses (buyEvent market) now incoming book.asks) :=
        matchLoop_taking now (fun _ _ _ _ => rfl) (fun _ _ _ _ _ _ _ => rfl)
          (fun _ _ _ _ _ => rfl) incoming book.asks
      obtain ⟨m, -, -, p, q, t, rfl⟩ := htaking.makers ev hev
      exact ⟨rfl, Or.inl rfl, Or.inr rfl⟩
    · have htaking : Taking priceSellCrosses (sellEvent market) incoming book.bids
          (matchLoop priceSellCrosses (sellEvent market) now incoming book.bids) :=
        matchLoop_taking now (fun _ _ _ _ => rfl) (fun _ _ _ _ _ _ _ => rfl)
          (fun _ _ _ _ _ => rfl) incoming book.bids
      obtain ⟨m, -, -, p, q, t, rfl⟩ := htaking.makers ev hev
      exact ⟨rfl, Or.inr rfl, Or.inl rfl⟩

end OrderBook

namespace Engine

variable {e : Engine} {o : Order} {now : ℕ → ℕ}

theorem taker_of_mem_placeOrder {ev : MatchEvent} (hev : ev ∈ (e.placeOrder now o).2.map Prod.snd) :
    ev.takerOrderId = o.id ∧ ev.Names ev.takerOrderId ∧ ev.Names ev.makerOrderId := by
  rw [events_placeOrder] at hev
  exact OrderBook.taker_of_mem_matchOrders hev

theorem placeOrder_takes (hfresh : ∀ x ∈ e.orders, x.id ≠ o.id) (now : ℕ → ℕ) :
    OrderBook.TakerOutcome (e.bookOf o.market) o ((e.placeOrder now o).2.map Prod.snd)
      (e.trialMatch now o).2 := by
  rw [events_placeOrder]
  exact OrderBook.insertAndMatch_takes (fun x hx => hfresh x (mem_orders_of_mem_bookOf hx))
    o.market now

theorem mem_orders_placeOrder {x : Order} (hx : x ∈ (e.placeOrder now o).1.orders) :
    x ∈ (e.trialMatch now o).2.orders ∨ x ∈ e.orders := by
  rw [orders, orderBooks_placeOrder] at hx
  exact mem_commitBook hx

theorem exists_of_mem_orders_placeOrder {x : Order}
    (hx : x ∈ (e.placeOrder now o).1.orders) : ∃ y, (y = o ∨ y ∈ e.orders) ∧ x.Descends y := by
  rcases mem_orders_placeOrder hx with hx | hx
  · obtain ⟨y, hy, hxy⟩ := (e.trialMatch_provenance now o).1 x hx
    exact ⟨y, hy.imp_right mem_orders_of_mem_bookOf, hxy⟩
  · exact ⟨x, Or.inr hx, refl x⟩

theorem names_of_mem_placeOrder {ev : MatchEvent} (hev : ev ∈ (e.placeOrder now o).2.map Prod.snd)
    {z : OrderId} (hz : ev.Names z) : z = o.id ∨ ∃ y ∈ e.orders, y.id = z := by
  rw [events_placeOrder] at hev
  rcases (e.trialMatch_provenance now o).2 ev hev z hz with hz | ⟨y, hy, hyz⟩
  · exact Or.inl hz
  · exact Or.inr ⟨y, mem_orders_of_mem_bookOf hy, hyz⟩

/-- What rests of an order with an id of its own is what the placement did not fill. -/
theorem rest_of_mem_orders_placeOrder (hfresh : ∀ x ∈ e.orders, x.id ≠ o.id)
    {x : Order} (hx : x ∈ (e.placeOrder now o).1.orders) : (∃ y ∈ e.orders, x.Descends y) ∨
    x = o.withRemaining (o.remaining - filledQty o.id ((e.placeOrder now o).2.map Prod.snd)) ∧
    0 < o.remaining - filledQty o.id ((e.placeOrder now o).2.map Prod.snd) := by
  rcases mem_orders_placeOrder hx with hx | hx
  · rcases (placeOrder_takes hfresh now).from_before x hx with ⟨y, hy, hxy⟩ | hrest
    · exact Or.inl ⟨y, mem_orders_of_mem_bookOf hy, hxy⟩
    · exact Or.inr hrest
  · exact Or.inl ⟨x, hx, refl x⟩

theorem WellFormed.placeOrder (h : e.WellFormed) (hfresh : ∀ x ∈ e.orders, x.id ≠ o.id)
    (now : ℕ → ℕ) : (e.placeOrder now o).1.WellFormed := by
  by_cases hpos : 0 < o.remaining
  · have hinsert : (e.insertOrder o).WellFormed :=
      h.insertOrder (fun x hx heq => absurd heq (hfresh x hx)) hpos
    exact (placeOutcome hinsert now).wellFormed
  · have hsame : (e.trialMatch now o).2 = e.bookOf o.market :=
      congrArg Prod.snd (OrderBook.insertAndMatch_of_nonpos
        (fun x hx => hfresh x (mem_orders_of_mem_bookOf hx)) hpos o.market now)
    refine WellFormed.congr ?_ (orderBooks_placeOrder e now o)
    rw [hsame]
    exact h.commit_of_descends (h.distinctIds _) fun x hx => ⟨x, hx, refl x⟩

end Engine

end MetherCEX
