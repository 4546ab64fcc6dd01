import MetherCEX.Engine.Taker

/-!
# The trades of a placement

What a placement of an order with an id of its own trades: every event is a fill between the order
and an order of another user on the opposite side (`exists_eventOf`), and what the events give to
an order is what the book loses of it (`conserved_placeOrder`).
-/

namespace MetherCEX

namespace OrderBook

theorem eventOf_legs (market : Market) (incoming maker : Order) (p : Price) (q : Quantity) (t : ℕ) :
    (eventOf market incoming incoming maker p q t).takerOrderId = incoming.id ∧
    (eventOf market incoming incoming maker p q t).makerOrderId = maker.id ∧
    (eventOf market incoming incoming maker p q t).takerSide = incoming.side ∧
    (eventOf market incoming incoming maker p q t).market = market := by
  unfold eventOf
  cases incoming.side
  · exact ⟨rfl, rfl, rfl, rfl⟩
  · exact ⟨rfl, rfl, rfl, rfl⟩

end OrderBook

namespace Engine

open OrderBook

variable {e : Engine} {o : Order} {now : ℕ → ℕ}

theorem orders_perm_of_nonpos (hfresh : ∀ x ∈ e.orders, x.id ≠ o.id)
    (hnonpos : ¬ 0 < o.remaining) : (e.placeOrder now o).1.orders.Perm e.orders := by
  have hnone := insertAndMatch_of_nonpos (b := e.bookOf o.market)
    (fun x hx => hfresh x (mem_orders_of_mem_bookOf hx)) hnonpos o.market now
  have hbook : (e.trialMatch now o).2 = e.bookOf o.market := congrArg Prod.snd hnone
  have horders : (e.placeOrder now o).1.orders =
      (e.commitBook o.market (e.bookOf o.market)).orders := by
    rw [orders, orderBooks_placeOrder, hbook]
    rfl
  rw [horders]
  exact (e.orders_commitBook_perm o.market (e.bookOf o.market)).trans
    (e.orders_perm o.market).symm

theorem events_of_nonpos (hfresh : ∀ x ∈ e.orders, x.id ≠ o.id)
    (hnonpos : ¬ 0 < o.remaining) : (e.placeOrder now o).2.map Prod.snd = [] := by
  have hnone := insertAndMatch_of_nonpos (b := e.bookOf o.market)
    (fun x hx => hfresh x (mem_orders_of_mem_bookOf hx)) hnonpos o.market now
  rw [events_placeOrder]
  exact congrArg Prod.fst hnone

section Fresh

variable (h : e.WellFormed) (hfresh : ∀ x ∈ e.orders, x.id ≠ o.id) (hnonneg : 0 ≤ o.remaining)

include h hfresh hnonneg

theorem exists_eventOf {ev : MatchEvent} (hev : ev ∈ (e.placeOrder now o).2.map Prod.snd) :
    ∃ m ∈ e.orders, m.side = o.side.opposite ∧ m.market = o.market ∧
      ∃ q t, 0 < q ∧ ev = eventOf o.market o o m (execPrice m o) q t := by
  rcases hnonneg.eq_or_lt with hzero | hpos
  · rw [events_of_nonpos hfresh hzero.symm.le.not_gt] at hev
    exact nomatch hev
  · have hinsert : (e.insertOrder o).WellFormed :=
      h.insertOrder (fun x hx heq => absurd heq (hfresh x hx)) hpos
    have hperm := insertOrder_orders_perm_of_fresh h hfresh
    have hob := hinsert.mem_bookOf (hperm.mem_iff.mpr List.mem_cons_self)
    rw [events_placeOrder, trialMatch_eq, (matchOrders_eq_reference (hinsert.distinctIds _)
      (hinsert.positiveRemaining _) hob o.market now).1] at hev
    obtain ⟨f, hf, t, rfl⟩ := mem_referenceEvents hev
    have hmaker := (mem_eligibleMakers.mp (mem_of_mem_referenceFills hf)).1
    have hbook := mem_orders_of_mem_ordersOn hmaker
    have hside : f.1.side = o.side.opposite := side_of_mem_ordersOn hmaker
    refine ⟨f.1, ?_, hside, hinsert.market_of_mem hbook, f.2, t,
      (referenceFills_pos (hinsert.positiveRemaining _) hf).1, rfl⟩
    rcases List.mem_cons.mp (hperm.mem_iff.mp (mem_orders_of_mem_bookOf hbook)) with heq | hold
    · rw [heq] at hside
      cases hcase : o.side <;> rw [hcase] at hside <;> cases hside
    · exact hold

/-- What the events give to an order is what the book loses of it, and the incoming order
brings its quantity. -/
theorem conserved_placeOrder (z : OrderId) :
    restingQty z (e.placeOrder now o).1.orders + filledQty z ((e.placeOrder now o).2.map Prod.snd) =
    restingQty z e.orders + if o.id = z then o.remaining else 0 := by
  rcases hnonneg.eq_or_lt with hzero | hpos
  · have hnonpos := hzero.symm.le.not_gt
    rw [restingQty_perm z (orders_perm_of_nonpos hfresh hnonpos), events_of_nonpos hfresh hnonpos,
      filledQty_nil, ← hzero, ite_self]
  · have hinsert : (e.insertOrder o).WellFormed :=
      h.insertOrder (fun x hx heq => absurd heq (hfresh x hx)) hpos
    have hperm := insertOrder_orders_perm_of_fresh h hfresh
    rw [(placeOutcome hinsert now).conserved z, restingQty_perm z hperm, restingQty_cons,
      add_comm]

omit hnonneg in
theorem orders_perm_of_no_events (hnone : (e.placeOrder now o).2 = []) :
    (e.placeOrder now o).1.orders.Perm (if 0 < o.remaining then o :: e.orders else e.orders) := by
  split_ifs with hpos
  · have hinsert : (e.insertOrder o).WellFormed :=
      h.insertOrder (fun x hx heq => absurd heq (hfresh x hx)) hpos
    have hout := placeOutcome hinsert now
    refine List.Perm.trans ?_ (insertOrder_orders_perm_of_fresh h hfresh)
    rw [List.perm_ext_iff_of_nodup hout.wellFormed.distinct.of_map hinsert.distinct.of_map]
    have hconserved : ∀ z, restingQty z (e.placeOrder now o).1.orders =
        restingQty z (e.insertOrder o).orders := by
      intro z
      have hz := hout.conserved z
      rw [hnone, List.map_nil, filledQty_nil, add_zero] at hz
      exact hz
    have hsub : ∀ x ∈ (e.placeOrder now o).1.orders, x ∈ (e.insertOrder o).orders := by
      intro x hx
      obtain ⟨y, hy, hxy, -⟩ := hout.from_before x hx
      have hid : x.id = y.id := by rw [hxy, Order.withRemaining_id]
      have hremaining : x.remaining = y.remaining := by
        rw [← restingQty_of_mem hout.wellFormed.distinct hx, hconserved, hid,
          restingQty_of_mem hinsert.distinct hy]
      rw [hxy, hremaining]
      exact hy
    intro x
    refine ⟨hsub x, fun hx => ?_⟩
    -- what rests under the id of `x` afterwards is `x`, since ids are distinct
    have hne : restingQty x.id (e.placeOrder now o).1.orders ≠ 0 := by
      rw [hconserved, restingQty_of_mem hinsert.distinct hx]
      exact (hinsert.positive x hx).ne'
    have hmem : ∃ y ∈ (e.placeOrder now o).1.orders, y.id = x.id := by
      by_contra hcontra
      push Not at hcontra
      exact hne (restingQty_eq_zero hcontra)
    obtain ⟨y, hy, hid⟩ := hmem
    rwa [← List.inj_on_of_nodup_map hinsert.distinct (hsub y hy) hx hid]
  · exact orders_perm_of_nonpos (fun x hx => hfresh x hx) hpos

end Fresh

end Engine

end MetherCEX
