import MetherCEX.Engine.Engine
import MetherCEX.Engine.PriceTimePriority

/-!
# What a placement does to a book

A placement inserts an order and matches it. `insert_orders_perm` says what the insertion does to
the resting orders: the new order replaces the one under the same key, if there is one.
-/

namespace MetherCEX

open List

theorem KeyedBy.values_insert_perm {K : Type} [LinearOrder K]
    {key : Order → K} {s : Side} {m : SortedMap K Order} (h : KeyedBy key s m) (o : Order) :
    (m.insert (key o) o).values.Perm (o :: m.values.filter fun x => decide (key x ≠ key o)) := by
  have hperm := (m.insert_perm (key o) o).map Prod.snd
  have hrest : (m.remove (key o)).values =
      m.values.filter fun x => decide (key x ≠ key o) := by
    rw [SortedMap.values, SortedMap.values, filter_map]
    congr 1
    refine filter_congr fun e he => ?_
    simp [(h e he).1]
  rw [← hrest]
  exact hperm

/-- Two orders have the same priority key on the same side, so one replaces the
other. -/
def SameKey (a b : Order) : Prop :=
  a.side = b.side ∧ a.price = b.price ∧ a.createdAt = b.createdAt ∧ a.id = b.id
  deriving Decidable

namespace OrderBook

variable {b : OrderBook} {o : Order}

theorem bidKey_eq_iff {x : Order} (hx : x.side = .buy) (ho : o.side = .buy) :
    BidKey.fromOrder x = BidKey.fromOrder o ↔ SameKey x o := by
  have hinj : ∀ p q : Option Price,
      p.map OrderDual.toDual = q.map OrderDual.toDual ↔ p = q := fun p q =>
    (Option.map_injective OrderDual.toDual.injective).eq_iff
  simp [BidKey.fromOrder, SameKey, hx, ho, hinj]

theorem askKey_eq_iff {x : Order} (hx : x.side = .sell) (ho : o.side = .sell) :
    AskKey.fromOrder x = AskKey.fromOrder o ↔ SameKey x o := by
  simp [AskKey.fromOrder, SameKey, hx, ho]

theorem insert_orders_perm (b : OrderBook) (o : Order) :
    (b.insert o).orders.Perm (o :: b.orders.filter fun x => decide (¬ SameKey x o)) := by
  have hother : ∀ s, s ≠ o.side →
      (b.ordersOn s).filter (fun x => decide (¬ SameKey x o)) = b.ordersOn s := by
    intro s hs
    refine filter_eq_self.mpr fun x hx => decide_eq_true fun hkey => hs ?_
    rw [← side_of_mem_ordersOn hx]
    exact hkey.1
  rw [orders, orders, filter_append]
  cases ho : o.side with
  | buy =>
    have hown : (b.ordersOn .buy).filter (fun x => decide (¬ SameKey x o)) =
        b.bids.values.filter
          fun x => decide (BidKey.fromOrder x ≠ BidKey.fromOrder o) := by
      refine filter_congr fun x hx => ?_
      simp [bidKey_eq_iff (side_of_mem_ordersOn hx) ho]
    rw [hown, hother .sell (by rw [ho]; decide), ← cons_append]
    simp only [ordersOn, (insert_of_buy (b := b) ho).1, (insert_of_buy (b := b) ho).2]
    exact (b.bids_keyed.values_insert_perm o).append_right _
  | sell =>
    have hown : (b.ordersOn .sell).filter (fun x => decide (¬ SameKey x o)) =
        b.asks.values.filter
          fun x => decide (AskKey.fromOrder x ≠ AskKey.fromOrder o) := by
      refine filter_congr fun x hx => ?_
      simp [askKey_eq_iff (side_of_mem_ordersOn hx) ho]
    rw [hown, hother .buy (by rw [ho]; decide)]
    simp only [ordersOn, (insert_of_sell (b := b) ho).1, (insert_of_sell (b := b) ho).2]
    exact ((b.asks_keyed.values_insert_perm o).append_left _).trans perm_middle

theorem insert_orders_perm_of_fresh (h : ∀ x ∈ b.orders, x.id ≠ o.id) :
    (b.insert o).orders.Perm (o :: b.orders) := by
  have hall : b.orders.filter (fun x => decide (¬ SameKey x o)) = b.orders :=
    filter_eq_self.mpr fun x hx => decide_eq_true fun hkey => h x hx hkey.2.2.2
  have hperm := b.insert_orders_perm o
  rwa [hall] at hperm

theorem mem_insert_self (b : OrderBook) (o : Order) : o ∈ (b.insert o).orders :=
  (b.insert_orders_perm o).mem_iff.mpr mem_cons_self

/-- The call on the book `b` for its order `o` returned the events `es` and left
the book `b'`; what runs of the engine depend on. -/
structure MatchOutcome (b : OrderBook) (o : Order) (market : Market) (es : List MatchEvent)
    (b' : OrderBook) : Prop where
  distinct : b'.DistinctIds
  positive : b'.PositiveRemaining
  from_before : ∀ x ∈ b'.orders, ∃ y ∈ b.orders,
    x = y.withRemaining x.remaining ∧ x.remaining ≤ y.remaining
  conserved : ∀ x, restingQty x b'.orders + filledQty x es = restingQty x b.orders
  events : ∀ e ∈ es, 0 < e.quantity ∧ e.market = market ∧
    ∃ m ∈ b.orders, m.id ≠ o.id ∧ ∀ x, e.Names x ↔ x = o.id ∨ x = m.id
  rest_crosses_none : ∀ x ∈ b'.orders, x.id = o.id →
    ∀ m ∈ b'.ordersOn o.side.opposite, m.userId ≠ o.userId → ¬ PriceCrosses o m

theorem orders_perm_own_opposite (b : OrderBook) (s : Side) :
    b.orders.Perm (b.ordersOn s ++ b.ordersOn s.opposite) := by
  cases s with
  | buy => exact List.Perm.refl _
  | sell => exact perm_append_comm

section After

variable {b' : OrderBook} (hafter : ∀ s, b'.ordersOn s = referenceOrdersOn b o s)

include hafter

theorem orders_perm_after : b'.orders.Perm (applyFills [(o, o.remaining - referenceRest b o)]
    (b.ordersOn o.side) ++ applyFills (referenceFills b o) (b.ordersOn o.side.opposite)) := by
  rw [← ordersOn_own hafter, ← ordersOn_opposite hafter]
  exact b'.orders_perm_own_opposite o.side

theorem distinctIds_after (hid : b.DistinctIds) : b'.DistinctIds := by
  have hbefore := ((b.orders_perm_own_opposite o.side).map Order.id).nodup_iff.mp hid
  rw [DistinctIds, ((orders_perm_after hafter).map Order.id).nodup_iff]
  rw [map_append] at hbefore ⊢
  exact hbefore.sublist
    ((applyFills_ids_sublist _ _).append (applyFills_ids_sublist _ _))

theorem positiveRemaining_after (hpos : b.PositiveRemaining) : b'.PositiveRemaining := by
  intro x hx
  rcases mem_append.mp ((orders_perm_after hafter).mem_iff.mp hx) with hx | hx
  · exact applyFills_pos (fun y hy => hpos y (mem_orders_of_mem_ordersOn hy)) x hx
  · exact applyFills_pos (fun y hy => hpos y (mem_orders_of_mem_ordersOn hy)) x hx

theorem conserved_after (hid : b.DistinctIds) (hpos : b.PositiveRemaining)
    (ho : o ∈ b.orders) (market : Market) (now : ℕ → ℕ) (x : OrderId) : restingQty
    x b'.orders + filledQty x (referenceEvents b market now o) = restingQty x b.orders := by
  have hself : ∀ f ∈ [(o, o.remaining - referenceRest b o)],
      f.1 ∈ b.ordersOn o.side ∧ f.2 ≤ f.1.remaining := by
    intro f hf
    rw [mem_singleton.mp hf]
    exact ⟨mem_ordersOn_side ho, sub_le_self _ (GreedyFill.leftover_nonneg (hpos o ho).le _)⟩
  have hown := restingQty_applyFills (hid.ordersOn o.side) (by simp) hself x
  have hopp := restingQty_applyFills (hid.ordersOn o.side.opposite)
    (referenceFills_ids_nodup hid o)
    (fun f hf => ⟨(mem_eligibleMakers.mp (mem_of_mem_referenceFills hf)).1,
      (referenceFills_pos hpos hf).2⟩) x
  have hfilled := filledQty_fillEvents market now o (referenceFills b o) 0 x
  rw [restingQty_perm x (orders_perm_after hafter),
    restingQty_perm x (b.orders_perm_own_opposite o.side), restingQty_append,
    restingQty_append, ← hown, ← hopp, referenceEvents, hfilled, sum_referenceFills]
  -- the incoming order gets the sum of the fills, and no maker has its id
  have hnomaker : x = o.id → givenQty x (referenceFills b o) = 0 := by
    intro hx
    refine givenQty_eq_zero fun f hf => ?_
    rw [hx]
    exact id_ne_of_mem_opposite hid ho (mem_eligibleMakers.mp (mem_of_mem_referenceFills hf)).1
  by_cases hx : x = o.id
  · rw [if_pos hx, hnomaker hx]
    simp [givenQty, hx]
    ring
  · rw [if_neg hx]
    simp [givenQty, Ne.symm hx]
    ring

theorem rest_crosses_none_after (hid : b.DistinctIds)
    (ho : o ∈ b.orders) {x : Order} (hx : x ∈ b'.orders) (hxo : x.id = o.id) {m : Order}
    (hm : m ∈ b'.ordersOn o.side.opposite) (huser : m.userId ≠ o.userId) : ¬ PriceCrosses o m := by
  intro hcross
  have hopen := (rest_of_mem_after hafter hid ho hx hxo).2
  have hm' := hm
  rw [ordersOn_opposite hafter] at hm'
  -- the maker of before has the user and the price of the one after, so it was eligible
  have hbefore : ∃ y ∈ b.ordersOn o.side.opposite, y.id = m.id ∧ y.userId = m.userId ∧
      y.price = m.price := by
    obtain ⟨y, hy, ⟨rfl, -⟩ | ⟨f, -, -, -, rfl⟩⟩ := exists_of_mem_applyFills hm'
    · exact ⟨m, hy, rfl, rfl, rfl⟩
    · exact ⟨y, hy, rfl, rfl, rfl⟩
  obtain ⟨y, hy, hyid, hyuser, hyprice⟩ := hbefore
  have hyc : PriceCrosses o y := by
    unfold PriceCrosses at hcross ⊢
    rwa [hyprice]
  have helig : y ∈ eligibleMakers b o :=
    mem_eligibleMakers.mpr ⟨hy, hyuser ▸ huser, hyc⟩
  have hf : (y, y.remaining) ∈ referenceFills b o := by
    rw [referenceFills, GreedyFill.fills_of_leftover_pos hopen]
    exact mem_map_of_mem (f := fun a : Order => (a, a.remaining)) helig
  exact not_mem_after_of_full hafter hid hf rfl m (mem_orders_of_mem_ordersOn hm) hyid.symm

end After

/-- The matching of a resting order in a book with distinct ids and positive
remainders. -/
theorem matchOutcome (hid : b.DistinctIds)
    (hpos : b.PositiveRemaining) (ho : o ∈ b.orders) (market : Market) (now : ℕ → ℕ) : MatchOutcome
    b o market (b.matchOrders market now o.id).1 (b.matchOrders market now o.id).2 := by
  obtain ⟨hevents, hafter⟩ := matchOrders_eq_reference hid hpos ho market now
  refine ⟨distinctIds_after hafter hid, positiveRemaining_after hafter hpos,
    fun x hx => exists_of_mem_after hafter hpos hx, fun x => ?_, fun e he => ?_,
    fun x hx hxo m hm huser => rest_crosses_none_after hafter hid ho hx hxo hm huser⟩
  · rw [hevents]
    exact conserved_after hafter hid hpos ho market now x
  · rw [hevents] at he
    obtain ⟨f, hf, t, rfl⟩ := mem_referenceEvents he
    have hm := (mem_eligibleMakers.mp (mem_of_mem_referenceFills hf)).1
    refine ⟨?_, ?_, f.1, mem_orders_of_mem_ordersOn hm, id_ne_of_mem_opposite hid ho hm,
      fun x => eventOf_names ..⟩
    · rw [eventOf_quantity]
      exact (referenceFills_pos hpos hf).1
    · unfold eventOf
      cases o.side <;> rfl

end OrderBook

end MetherCEX
