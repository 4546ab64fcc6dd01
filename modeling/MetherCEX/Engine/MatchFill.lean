import MetherCEX.Engine.Provenance

/-!
# Applying a fill to a book

`apply_match_fill` takes the quantity of an event from its bid and its ask. It fails, and leaves
the book as it is, when one of the two is not in the book.
-/

namespace MetherCEX

open List SortedMap

namespace OrderBook

variable {b : OrderBook} {ev : MatchEvent}

theorem applyMatchFill_of_missing {x : OrderId} (hx : ev.Names x)
    (hmiss : ∀ o ∈ b.orders, o.id ≠ x) : ∃ err, b.applyMatchFill ev = .error err := by
  unfold applyMatchFill
  split_ifs
  · exact ⟨_, rfl⟩
  · rcases hx with rfl | rfl
    · have hnone : b.bids.find? (fun o => decide (o.id = ev.bidOrderId)) = none :=
        find?_eq_none.mpr fun o ho =>
          decide_eq_false (hmiss o (mem_orders_of_mem_ordersOn (s := .buy) ho))
      rw [hnone]
      exact ⟨_, rfl⟩
    · have hnone : b.asks.find? (fun o => decide (o.id = ev.askOrderId)) = none :=
        find?_eq_none.mpr fun o ho =>
          decide_eq_false (hmiss o (mem_orders_of_mem_ordersOn (s := .sell) ho))
      rw [hnone]
      cases b.bids.find? fun o => decide (o.id = ev.bidOrderId) <;> exact ⟨_, rfl⟩

variable {o bid ask : Order} {b' : OrderBook}

theorem orders_removeBid_perm {key : BidKey} (h : (key, o) ∈ b.bids.entries) :
    b.orders.Perm (o :: (b.removeBid key).orders) :=
  ((perm_cons_remove h).map Prod.snd).append_right b.asks.values

theorem orders_removeAsk_perm {key : AskKey} (h : (key, o) ∈ b.asks.entries) :
    b.orders.Perm (o :: (b.removeAsk key).orders) :=
  (((perm_cons_remove h).map Prod.snd).append_left b.bids.values).trans
    perm_middle

theorem putBack_orders_perm (h : ∀ x ∈ b.orders, ¬ SameKey x o) :
    (b.putBack o).orders.Perm ((if o.remaining = 0 then [] else [o]) ++ b.orders) := by
  unfold putBack
  by_cases hzero : o.remaining = 0
  · rw [if_neg (not_not.mpr hzero), if_pos hzero]
    exact List.Perm.refl _
  · have hall : b.orders.filter (fun x => decide (¬ SameKey x o)) = b.orders :=
      filter_eq_self.mpr fun x hx => decide_eq_true (h x hx)
    have hperm := b.insert_orders_perm o
    rw [hall] at hperm
    rw [if_pos hzero, if_neg hzero]
    exact hperm

theorem orders_replace_perm {bidKey : BidKey} {askKey : AskKey} (hbid : (bidKey,
    bid) ∈ b.bids.entries) (hask : (askKey, ask) ∈ b.asks.entries) (r r' : Quantity) :
    ∃ rest, b.orders.Perm (bid :: ask :: rest) ∧ ((((b.removeBid bidKey).removeAsk askKey).putBack
    (bid.withRemaining r)).putBack (ask.withRemaining r')).orders.Perm ((if r' = 0 then []
    else [ask.withRemaining r']) ++ ((if r = 0 then [] else [bid.withRemaining r]) ++ rest)) := by
  obtain ⟨hbidKey, hbidSide⟩ : bidKey = BidKey.fromOrder bid ∧ bid.side = .buy :=
    b.bids_keyed _ hbid
  obtain ⟨haskKey, haskSide⟩ : askKey = AskKey.fromOrder ask ∧ ask.side = .sell :=
    b.asks_keyed _ hask
  refine ⟨((b.removeBid bidKey).removeAsk askKey).orders, ?_, ?_⟩
  · exact (orders_removeBid_perm hbid).trans
      ((orders_removeAsk_perm (b := b.removeBid bidKey) hask).cons bid)
  · -- the keys of the two orders are free once they are removed
    have hfree : ∀ x ∈ ((b.removeBid bidKey).removeAsk askKey).orders,
        ¬ SameKey x bid ∧ ¬ SameKey x ask := by
      intro x hx
      rcases mem_append.mp hx with hx | hx
      · have hside := side_of_mem_ordersOn (s := .buy) hx
        obtain ⟨k, hk⟩ := mem_values.mp hx
        obtain ⟨hk, hne⟩ := mem_remove.mp hk
        refine ⟨fun hkey => hne ?_, fun hkey => ?_⟩
        · rw [hbidKey, ← (bidKey_eq_iff hside hbidSide).mpr hkey]
          exact (b.bids_keyed _ hk).1
        · exact absurd (hside.symm.trans (hkey.1.trans haskSide)) (by decide)
      · have hside := side_of_mem_ordersOn (s := .sell) hx
        obtain ⟨k, hk⟩ := mem_values.mp hx
        obtain ⟨hk, hne⟩ := mem_remove.mp hk
        refine ⟨fun hkey => ?_, fun hkey => hne ?_⟩
        · exact absurd (hside.symm.trans (hkey.1.trans hbidSide)) (by decide)
        · rw [haskKey, ← (askKey_eq_iff hside haskSide).mpr hkey]
          exact (b.asks_keyed _ hk).1
    have hfirst := putBack_orders_perm (o := bid.withRemaining r) fun x hx => (hfree x hx).1
    refine (putBack_orders_perm fun x hx => ?_).trans (hfirst.append_left _)
    rcases mem_append.mp (hfirst.mem_iff.mp hx) with hx | hx
    · split_ifs at hx with hr
      · exact nomatch hx
      · rw [mem_singleton.mp hx]
        intro hkey
        exact absurd (hbidSide.symm.trans (hkey.1.trans haskSide)) (by decide)
    · exact (hfree x hx).2

theorem mem_rest {x : Order} {q : Quantity} (hq : q ≤ o.remaining) (hx : x ∈
    (if o.remaining - q = 0 then [] else [o.withRemaining (o.remaining - q)])) : x.Descends o := by
  split_ifs at hx with hzero
  · exact nomatch hx
  · rw [mem_singleton.mp hx]
    exact Order.Descends.of_pos o (lt_of_le_of_ne (sub_nonneg.mpr hq) (Ne.symm hzero))

theorem restingQty_rest (z : OrderId) (o : Order) (r : Quantity) :
    restingQty z (if r = 0 then [] else [o.withRemaining r]) = if o.id = z then r else 0 := by
  split_ifs with hr hz hz <;> simp [restingQty_cons, hr, hz]

/-- A fill that can be applied names a bid and an ask of the book; what is left are
orders of the book, and the two orders lose the quantity of the fill. -/
structure FillApplied (b : OrderBook) (ev : MatchEvent) (b' : OrderBook) : Prop where
  positive : 0 < ev.quantity
  names : ∀ z, ev.Names z → ∃ y ∈ b.orders, y.id = z
  from_before : ∀ x ∈ b'.orders, ∃ y ∈ b.orders, x.Descends y
  distinct : b.DistinctIds → b'.DistinctIds ∧ ev.bidOrderId ≠ ev.askOrderId
  restingQty_eq : ∀ z, restingQty z b'.orders = restingQty z b.orders -
    (if ev.bidOrderId = z then ev.quantity else 0) -
    (if ev.askOrderId = z then ev.quantity else 0)

theorem ids_rest_sublist (o : Order) (r : Quantity) :
    ((if r = 0 then [] else [o.withRemaining r] : List Order).map Order.id).Sublist [o.id] := by
  split_ifs
  · exact nil_sublist _
  · exact List.Sublist.refl _

theorem distinctIds_replace {rest : List Order} {r r' : Quantity}
    (hbefore : b.orders.Perm (bid :: ask :: rest)) (hafter : b'.orders.Perm ((if r' = 0 then
    [] else [ask.withRemaining r']) ++ ((if r = 0 then [] else [bid.withRemaining r]) ++ rest)))
    (h : b.DistinctIds) : b'.DistinctIds ∧ bid.id ≠ ask.id := by
  have hnodup := (hbefore.map Order.id).nodup_iff.mp h
  refine ⟨(hafter.map Order.id).nodup_iff.mpr ?_, fun hids => ?_⟩
  · rw [map_append, map_append]
    refine List.Nodup.sublist ((ids_rest_sublist ask r').append
      ((ids_rest_sublist bid r).append (List.Sublist.refl _))) ?_
    exact (List.Perm.swap bid.id ask.id _).nodup_iff.mpr hnodup
  · rw [map_cons, map_cons, hids] at hnodup
    exact (nodup_cons.mp hnodup).1 mem_cons_self

theorem applyMatchFill_spec (h : b.applyMatchFill ev = .ok b') : FillApplied b ev b' := by
  unfold applyMatchFill at h
  split_ifs at h with hq
  split at h
  · rename_i bidKey bid askKey ask hbid hask
    split_ifs at h with hmarket hrem
    cases h
    have hbidId := SortedMap.find?_some hbid
    have haskId := SortedMap.find?_some hask
    rw [decide_eq_true_iff] at hbidId haskId
    rw [not_or, not_lt, not_lt] at hrem
    obtain ⟨rest, hbefore, hafter⟩ := orders_replace_perm
      (SortedMap.mem_of_find?_eq_some hbid) (SortedMap.mem_of_find?_eq_some hask)
      (bid.remaining - ev.quantity) (ask.remaining - ev.quantity)
    have hbidMem : bid ∈ b.orders := hbefore.mem_iff.mpr mem_cons_self
    have haskMem : ask ∈ b.orders :=
      hbefore.mem_iff.mpr (mem_cons_of_mem bid mem_cons_self)
    refine ⟨not_le.mp hq, fun z hz => ?_, fun x hx => ?_, fun hid => ?_, fun z => ?_⟩
    · rcases hz with rfl | rfl
      · exact ⟨bid, hbidMem, hbidId⟩
      · exact ⟨ask, haskMem, haskId⟩
    · rcases mem_append.mp (hafter.mem_iff.mp hx) with hx | hx
      · exact ⟨ask, haskMem, mem_rest hrem.2 hx⟩
      · rcases mem_append.mp hx with hx | hx
        · exact ⟨bid, hbidMem, mem_rest hrem.1 hx⟩
        · exact ⟨x, hbefore.mem_iff.mpr (mem_cons_of_mem _ (mem_cons_of_mem _ hx)),
            Order.Descends.refl x⟩
    · rw [← hbidId, ← haskId]
      exact distinctIds_replace hbefore hafter hid
    · rw [restingQty_perm z hafter, restingQty_perm z hbefore, restingQty_append,
        restingQty_append, restingQty_rest, restingQty_rest, restingQty_cons, restingQty_cons,
        hbidId, haskId]
      split_ifs <;> ring
  · cases h

end OrderBook

namespace Engine

variable {e : Engine} {ev : MatchEvent}

theorem applyReplayEvent_of_applied {id : ℕ} (ev : MatchEvent)
    (h : id ∈ e.bookAppliedMatchEventIds) : e.applyReplayEvent id ev = .ok e :=
  if_pos h

theorem applyReplayEvent_of_missing {id : ℕ} (hid : id ∉ e.bookAppliedMatchEventIds)
    {x : OrderId} (hx : ev.Names x) (hmiss : ∀ o ∈ e.orders, o.id ≠ x) :
    ∃ err, e.applyReplayEvent id ev = .error err := by
  obtain ⟨err, herr⟩ := OrderBook.applyMatchFill_of_missing (b := e.bookOf ev.market) hx
    fun o ho => hmiss o (mem_orders_of_mem_bookOf ho)
  refine ⟨err, ?_⟩
  rw [applyReplayEvent, if_neg hid, herr]

/-- The event of a row is in the books of `e'`, and everything else is as in `e`. -/
structure RowApplied (e : Engine) (id : ℕ) (ev : MatchEvent) (e' : Engine) : Prop where
  nextEventId_eq : e'.nextEventId = e.nextEventId
  applied : ∀ i, i ∈ e'.bookAppliedMatchEventIds ↔ i = id ∨ i ∈ e.bookAppliedMatchEventIds
  positive : 0 < ev.quantity
  names : ∀ z, ev.Names z → ∃ y ∈ e.orders, y.id = z
  from_before : ∀ x ∈ e'.orders, ∃ y ∈ e.orders, x.Descends y
  restingQty_le : ∀ z, restingQty z e'.orders + filledQty z [ev] ≤ restingQty z e.orders
  wellFormed : e.WellFormed → e'.WellFormed
  restingQty_ge : e.WellFormed → ∀ z,
    restingQty z e.orders ≤ restingQty z e'.orders + filledQty z [ev]

theorem restingQty_fill {e' : Engine} {book : OrderBook} (hperm : e'.orders.Perm (book.orders
    ++ e.otherOrders ev.market)) (hfill : OrderBook.FillApplied (e.bookOf ev.market) ev book)
    (z : OrderId) : restingQty z e'.orders = restingQty z e.orders - (if ev.bidOrderId =
    z then ev.quantity else 0) - (if ev.askOrderId = z then ev.quantity else 0) := by
  rw [restingQty_perm z hperm, restingQty_perm z (e.orders_perm ev.market), restingQty_append,
    restingQty_append, hfill.restingQty_eq z]
  ring

theorem applyReplayEvent_spec {id : ℕ} {e' : Engine} (hid : id ∉ e.bookAppliedMatchEventIds)
    (h : e.applyReplayEvent id ev = .ok e') : RowApplied e id ev e' := by
  rw [applyReplayEvent, if_neg hid] at h
  split at h
  · cases h
  · rename_i book hbook
    cases h
    have hfill := OrderBook.applyMatchFill_spec hbook
    have hbooks : (insertMatchEventSorted (recordBookAppliedForEventIds
        { e with orderBooks := e.orderBooks.insert ev.market book } [id]) id ev).orderBooks =
          (e.commitBook ev.market book).orderBooks := by
      simp [recordBookAppliedForEventIds, commitBook]
    have hperm : (insertMatchEventSorted (recordBookAppliedForEventIds
        { e with orderBooks := e.orderBooks.insert ev.market book } [id]) id ev).orders.Perm
          (book.orders ++ e.otherOrders ev.market) := by
      rw [Engine.orders, hbooks]
      exact e.orders_commitBook_perm ev.market book
    have hresting := fun z => restingQty_fill hperm hfill z
    refine ⟨by simp [recordBookAppliedForEventIds], fun i => ?_, hfill.positive, fun z hz => ?_,
      fun x hx => ?_, fun z => ?_, fun hwf => ?_, fun hwf z => ?_⟩
    · simp [recordBookAppliedForEventIds]
    · obtain ⟨y, hy, hyz⟩ := hfill.names z hz
      exact ⟨y, mem_orders_of_mem_bookOf hy, hyz⟩
    · rcases mem_append.mp (hperm.mem_iff.mp hx) with hx | hx
      · obtain ⟨y, hy, hxy⟩ := hfill.from_before x hx
        exact ⟨y, mem_orders_of_mem_bookOf hy, hxy⟩
      · exact ⟨x, otherOrders_subset e ev.market x hx, Order.Descends.refl x⟩
    · have hpos := hfill.positive
      rw [hresting z, filledQty_singleton]
      by_cases hbid : ev.bidOrderId = z <;> by_cases hask : ev.askOrderId = z <;>
        simp only [MatchEvent.Names, hbid, hask, if_true, if_false, or_true, true_or, or_self]
          <;> linarith
    · have hdistinct := (hfill.distinct (hwf.distinctIds ev.market)).1
      exact (hwf.commit_of_descends hdistinct hfill.from_before).congr hbooks
    · -- the two orders are different, so each loses the quantity once
      have hne := (hfill.distinct (hwf.distinctIds ev.market)).2
      rw [hresting z, filledQty_singleton]
      by_cases hbid : ev.bidOrderId = z
      · have hask : ev.askOrderId ≠ z := fun hask => hne (hbid.trans hask.symm)
        simp [MatchEvent.Names, hbid, hask]
      · by_cases hask : ev.askOrderId = z <;> simp [MatchEvent.Names, hbid, hask]

end Engine

end MetherCEX
