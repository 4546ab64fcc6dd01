import MetherCEX.Engine.Placement

/-!
# Where resting orders come from

Whatever a book holds, matching leaves only orders that were in it, with another remainder, and
its events name the incoming order and orders of the book.
-/

namespace MetherCEX

open List SortedMap

def Order.Descends (x y : Order) : Prop :=
  x = y.withRemaining x.remaining ∧ (0 < y.remaining → 0 < x.remaining)

namespace Order.Descends

variable {x y z : Order}

theorem refl (x : Order) : x.Descends x := ⟨rfl, fun h => h⟩

theorem trans (h : x.Descends y) (h' : y.Descends z) : x.Descends z := by
  refine ⟨?_, fun hz => h.2 (h'.2 hz)⟩
  have hx := h.1
  rw [h'.1, withRemaining_withRemaining] at hx
  exact hx

theorem id_eq (h : x.Descends y) : x.id = y.id := by
  rw [h.1]
  rfl

theorem market_eq (h : x.Descends y) : x.market = y.market := by
  rw [h.1]
  rfl

theorem of_pos (y : Order) {r : Quantity} (hr : 0 < r) : (y.withRemaining r).Descends y :=
  ⟨rfl, fun _ => hr⟩

end Order.Descends

section MatchLoop

variable {K : Type} [LinearOrder K]
variable {event : Order → Order → Price → Quantity → ℕ → MatchEvent} {now : ℕ → ℕ}

theorem mem_matchRound_passive {s : MatchState K} {key : K} {maker x : Order} (hmem : (key,
    maker) ∈ s.passive.entries) (hx : x ∈ (matchRound event now s key maker).passive.values) :
    ∃ y ∈ s.passive.values, x.Descends y := by
  obtain ⟨k, hx⟩ := mem_values.mp hx
  by_cases hrest : 0 < maker.remaining - min s.incoming.remaining maker.remaining
  · rw [matchRound_passive_of_rest hrest] at hx
    rcases mem_insert.mp hx with heq | ⟨hx, -⟩
    · cases heq
      exact ⟨maker, mem_values.mpr ⟨key, hmem⟩, Order.Descends.of_pos maker hrest⟩
    · exact ⟨x, mem_values.mpr ⟨k, hx⟩, Order.Descends.refl x⟩
  · rw [matchRound_passive_of_full hrest] at hx
    exact ⟨x, mem_values.mpr ⟨k, (mem_remove.mp hx).1⟩,
      Order.Descends.refl x⟩

/-- The loop leaves orders of the passive side, and its events name the incoming
order and orders of the passive side. -/
theorem matchLoop_provenance (crosses : Order → Order → Bool) (event : Order → Order → Price →
    Quantity → ℕ → MatchEvent) (now : ℕ → ℕ) (hevent : ∀ i m p q t z, (event i m p q t).Names z →
    z = i.id ∨ z = m.id) (incoming : Order) (passive : SortedMap K Order) :
    (∀ x ∈ (matchLoop crosses event now incoming passive).passive.values, ∃ y ∈ passive.values,
    x.Descends y) ∧ ∀ ev ∈ (matchLoop crosses event now incoming passive).events, ∀ z, ev.Names z →
    z = incoming.id ∨ ∃ y ∈ passive.values, y.id = z := by
  -- beside the two facts, the incoming order keeps its id
  refine And.right (a := (matchLoop crosses event now incoming passive).incoming.id =
    incoming.id) ?_
  refine Loop.iterate_invariant
    (P := fun s : MatchState K => s.incoming.id = incoming.id ∧
      (∀ x ∈ s.passive.values, ∃ y ∈ passive.values, x.Descends y) ∧
      ∀ ev ∈ s.events, ∀ z, ev.Names z → z = incoming.id ∨ ∃ y ∈ passive.values, y.id = z)
    ?_ _ ⟨rfl, fun x hx => ⟨x, hx, Order.Descends.refl x⟩,
      nofun⟩
  rintro s s' ⟨hid, hpassive, hevents⟩ h
  obtain ⟨key, maker, -, hfind, -, rfl⟩ := matchStep_eq_some h
  have hmem := SortedMap.mem_of_find?_eq_some hfind
  refine ⟨hid, fun x hx => ?_, fun ev hev z hz => ?_⟩
  · obtain ⟨y, hy, hxy⟩ := mem_matchRound_passive hmem hx
    obtain ⟨w, hw, hyw⟩ := hpassive y hy
    exact ⟨w, hw, hxy.trans hyw⟩
  · rcases mem_append.mp hev with hev | hev
    · exact hevents ev hev z hz
    · rw [mem_singleton.mp hev] at hz
      rcases hevent _ _ _ _ _ _ hz with rfl | rfl
      · exact Or.inl hid
      · obtain ⟨w, hw, hmw⟩ := hpassive maker (mem_values.mpr ⟨key, hmem⟩)
        exact Or.inr ⟨w, hw, hmw.id_eq.symm⟩

end MatchLoop

namespace OrderBook

variable {b : OrderBook} {o x : Order}

theorem mem_of_mem_insert (hx : x ∈ (b.insert o).orders) : x = o ∨ x ∈ b.orders := by
  rcases mem_cons.mp ((b.insert_orders_perm o).mem_iff.mp hx) with hx | hx
  · exact Or.inl hx
  · exact Or.inr (mem_of_mem_filter hx)

theorem removeOrderById_eq_some {id : OrderId} {b' : OrderBook} (h : b.removeOrderById id = some (o,
    b')) : o.id = id ∧ o ∈ b.orders ∧ ∀ x ∈ b'.orders, x ∈ b.orders := by
  unfold removeOrderById at h
  split at h
  · rename_i key bid hfind
    cases h
    have hid := SortedMap.find?_some hfind
    refine ⟨of_decide_eq_true hid, ?_, fun x hx => ?_⟩
    · exact mem_orders_of_mem_ordersOn (s := .buy)
        (SortedMap.mem_values.mpr ⟨key, SortedMap.mem_of_find?_eq_some hfind⟩)
    · rcases mem_append.mp hx with hx | hx
      · obtain ⟨k, hk⟩ := mem_values.mp hx
        exact mem_orders_of_mem_ordersOn (s := .buy)
          (mem_values.mpr ⟨k, (mem_remove.mp hk).1⟩)
      · exact mem_orders_of_mem_ordersOn (s := .sell) hx
  · split at h
    · rename_i key ask hfind
      cases h
      have hid := SortedMap.find?_some hfind
      refine ⟨of_decide_eq_true hid, ?_, fun x hx => ?_⟩
      · exact mem_orders_of_mem_ordersOn (s := .sell)
          (SortedMap.mem_values.mpr ⟨key, SortedMap.mem_of_find?_eq_some hfind⟩)
      · rcases mem_append.mp hx with hx | hx
        · exact mem_orders_of_mem_ordersOn (s := .buy) hx
        · obtain ⟨k, hk⟩ := mem_values.mp hx
          exact mem_orders_of_mem_ordersOn (s := .sell)
            (mem_values.mpr ⟨k, (mem_remove.mp hk).1⟩)
    · cases h

theorem mem_insertRest {b' : OrderBook} {r : Quantity} (ho : o ∈ b.orders)
    (hb' : ∀ x ∈ b'.orders, ∃ y ∈ b.orders, x.Descends y)
    (hx : x ∈ (b'.insertRest (o.withRemaining r)).orders) : ∃ y ∈ b.orders, x.Descends y := by
  unfold insertRest at hx
  split_ifs at hx with hpos
  · rcases mem_of_mem_insert hx with rfl | hx
    · exact ⟨o, ho, Order.Descends.of_pos o hpos⟩
    · exact hb' x hx
  · exact hb' x hx

theorem matchOrders_provenance (b : OrderBook) (market : Market) (now : ℕ → ℕ) (id : OrderId) :
    (∀ x ∈ (b.matchOrders market now id).2.orders, ∃ y ∈ b.orders, x.Descends y) ∧ ∀ ev ∈
    (b.matchOrders market now id).1, ∀ z, ev.Names z → z = id ∨ ∃ y ∈ b.orders, y.id = z := by
  unfold matchOrders
  split
  · exact ⟨fun x hx => ⟨x, hx, Order.Descends.refl x⟩, nofun⟩
  · rename_i incoming book hremove
    obtain ⟨rfl, hincoming, hbook⟩ := removeOrderById_eq_some hremove
    have hbids := fun x hx => hbook x (mem_orders_of_mem_ordersOn (s := .buy) hx)
    have hasks := fun x hx => hbook x (mem_orders_of_mem_ordersOn (s := .sell) hx)
    split
    · obtain ⟨hpassive, hevents⟩ := matchLoop_provenance priceBuyCrosses (buyEvent market) now
        (fun i m p q t z hz => hz.imp Eq.symm Eq.symm) incoming book.asks
      obtain ⟨r, hr⟩ : ∃ r, (book.matchBuy market now incoming).incoming =
        incoming.withRemaining r := matchLoop_incoming incoming book.asks
      refine ⟨fun x hx => ?_, fun ev hev z hz => ?_⟩
      · dsimp only at hx
        rw [hr] at hx
        refine mem_insertRest hincoming (fun y hy => ?_) hx
        rcases mem_append.mp hy with hy | hy
        · exact ⟨y, hbids y hy, Order.Descends.refl y⟩
        · obtain ⟨w, hw, hyw⟩ := hpassive y hy
          exact ⟨w, hasks w hw, hyw⟩
      · exact (hevents ev hev z hz).imp_right fun ⟨y, hy, hyz⟩ => ⟨y, hasks y hy, hyz⟩
    · obtain ⟨hpassive, hevents⟩ := matchLoop_provenance priceSellCrosses (sellEvent market) now
        (fun i m p q t z hz => hz.symm.imp Eq.symm Eq.symm) incoming book.bids
      obtain ⟨r, hr⟩ : ∃ r, (book.matchSell market now incoming).incoming =
        incoming.withRemaining r := matchLoop_incoming incoming book.bids
      refine ⟨fun x hx => ?_, fun ev hev z hz => ?_⟩
      · dsimp only at hx
        rw [hr] at hx
        refine mem_insertRest hincoming (fun y hy => ?_) hx
        rcases mem_append.mp hy with hy | hy
        · obtain ⟨w, hw, hyw⟩ := hpassive y hy
          exact ⟨w, hbids w hw, hyw⟩
        · exact ⟨y, hasks y hy, Order.Descends.refl y⟩
      · exact (hevents ev hev z hz).imp_right fun ⟨y, hy, hyz⟩ => ⟨y, hbids y hy, hyz⟩

end OrderBook

namespace Engine

theorem trialMatch_provenance (e : Engine) (now : ℕ → ℕ) (o : Order) :
    (∀ x ∈ (e.trialMatch now o).2.orders, ∃ y, (y = o ∨ y ∈ (e.bookOf o.market).orders) ∧
    x.Descends y) ∧ ∀ ev ∈ (e.trialMatch now o).1, ∀ z, ev.Names z →
    z = o.id ∨ ∃ y ∈ (e.bookOf o.market).orders, y.id = z := by
  obtain ⟨horders, hevents⟩ :=
    ((e.bookOf o.market).insert o).matchOrders_provenance o.market now o.id
  constructor
  · intro x hx
    obtain ⟨y, hy, hxy⟩ := horders x hx
    exact ⟨y, OrderBook.mem_of_mem_insert hy, hxy⟩
  · intro ev hev z hz
    rcases hevents ev hev z hz with hz | ⟨y, hy, rfl⟩
    · exact Or.inl hz
    · rcases OrderBook.mem_of_mem_insert hy with rfl | hy
      · exact Or.inl rfl
      · exact Or.inr ⟨y, hy, rfl⟩

theorem mem_commitBook {e : Engine} {market : Market} {book : OrderBook} {x : Order}
    (hx : x ∈ (e.commitBook market book).orders) : x ∈ book.orders ∨ x ∈ e.orders := by
  rcases mem_append.mp ((e.orders_commitBook_perm market book).mem_iff.mp hx) with hx | hx
  · exact Or.inl hx
  · exact Or.inr (otherOrders_subset e market x hx)

theorem WellFormed.commit_of_descends {e : Engine} (h : e.WellFormed)
    {market : Market} {book : OrderBook} (hid : book.DistinctIds) (hfrom : ∀ x ∈ book.orders,
    ∃ y ∈ (e.bookOf market).orders, x.Descends y) : (e.commitBook market book).WellFormed := by
  refine h.commit hid (fun x hx => ?_) (fun x hx => ?_) fun x hx y hy => ?_
  · obtain ⟨y, hy, hxy⟩ := hfrom x hx
    exact hxy.2 (h.positiveRemaining market y hy)
  · obtain ⟨y, hy, hxy⟩ := hfrom x hx
    exact hxy.market_eq.trans (h.market_of_mem hy)
  · obtain ⟨w, hw, hxw⟩ := hfrom x hx
    have hnodup := ((e.orders_perm market).map Order.id).nodup_iff.mp h.distinct
    rw [map_append, nodup_append] at hnodup
    rw [hxw.id_eq]
    exact hnodup.2.2 _ (mem_map_of_mem hw) _ (mem_map_of_mem hy)

end Engine

end MetherCEX
