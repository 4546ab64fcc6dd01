import MetherCEX.Lib.Run
import MetherCEX.Engine.Conservation

/-!
# Placing an order again

After a restart the backend replays its open orders through the ordinary placement, with the
remainder its own tables hold (`engine-replay.ts`). The engine keeps no record of the ids it has
seen.
-/

namespace MetherCEX

open Run List

/-- The calls of the run may place an id again, as the same order with a
remainder within its quantity. -/
structure RepeatedPlacements (ops : List EngineOp) : Prop where
  same : ∀ o ∈ placedOrders ops, ∀ o' ∈ placedOrders ops, o.id = o'.id →
    o.userId = o'.userId ∧ o.market = o'.market ∧ o.side = o'.side ∧ o.price = o'.price ∧
      o.quantity = o'.quantity
  remaining : ∀ o ∈ placedOrders ops, 0 < o.remaining ∧ o.remaining ≤ o.quantity

/-- The placement of `o` is up to date with what the engine has done. -/
def Current (s : EngineTrace) (o : Order) : Prop :=
  (∀ x ∈ s.engine.orders, x.id = o.id → x.createdAt = o.createdAt) ∧
    filledQty o.id s.events + o.remaining ≤ o.quantity
  deriving Decidable

def CurrentOp (s : EngineTrace) : EngineOp → Prop
  | .place _ o => Current s o
  | .cancel _ => True

instance (s : EngineTrace) : ∀ op, Decidable (CurrentOp s op)
  | .place _ o => inferInstanceAs (Decidable (Current s o))
  | .cancel _ => .isTrue trivial

theorem RepeatedPlacements.init {ops ops' : List EngineOp}
    (h : RepeatedPlacements (ops ++ ops')) : RepeatedPlacements ops := by
  have hmem : ∀ o ∈ placedOrders ops, o ∈ placedOrders (ops ++ ops') := fun o ho => by
    rw [placedOrders, filterMap_append]
    exact mem_append_left _ ho
  exact ⟨fun o ho o' ho' => h.same o (hmem o ho) o' (hmem o' ho'),
    fun o ho => h.remaining o (hmem o ho)⟩

/-- The orders of the run `ops` are within their quantities, and what rests is as
it was placed. -/
structure WithinQuantity (ops : List EngineOp) (s : EngineTrace) : Prop where
  wellFormed : s.engine.WellFormed
  resting_placed : ∀ x ∈ s.engine.orders, ∃ o ∈ placedOrders ops,
    x.id = o.id ∧ x.market = o.market ∧ x.side = o.side ∧ x.price = o.price
  quantity_pos : ∀ ev ∈ s.events, 0 < ev.quantity
  within : ∀ o ∈ placedOrders ops,
    restingQty o.id s.engine.orders + filledQty o.id s.events ≤ o.quantity

namespace WithinQuantity

variable {ops : List EngineOp} {s : EngineTrace}

theorem nil : WithinQuantity [] ⟨Engine.new, []⟩ := by
  refine ⟨Engine.WellFormed.new, ?_, ?_, ?_⟩
  · exact nofun
  · exact nofun
  · exact nofun

theorem cancel (h : WithinQuantity ops s) (orderId : OrderId) :
    WithinQuantity (ops ++ [.cancel orderId]) (s.step (.cancel orderId)) := by
  have hplaced : placedOrders (ops ++ [.cancel orderId]) = placedOrders ops := by
    simp [placedOrders, EngineOp.placed?]
  have horders : (s.step (.cancel orderId)).engine.orders =
      s.engine.orders.filter fun x => decide (x.id ≠ orderId) :=
    s.engine.orders_cancelOrder orderId
  refine ⟨h.wellFormed.cancelOrder orderId, ?_, h.quantity_pos, ?_⟩
  · intro x hx
    rw [horders] at hx
    rw [hplaced]
    exact h.resting_placed x (mem_of_mem_filter hx)
  · intro o ho
    rw [hplaced] at ho
    rw [horders]
    have hle := restingQty_filter_le h.wellFormed.positive
      (fun x => decide (x.id ≠ orderId)) o.id
    exact (add_le_add_left hle _).trans (h.within o ho)

theorem place (h : WithinQuantity ops s) {now : ℕ → ℕ} {o : Order}
    (hrep : RepeatedPlacements (ops ++ [.place now o])) (hcur : Current s o) :
    WithinQuantity (ops ++ [.place now o]) (s.step (.place now o)) := by
  have hplaced : placedOrders (ops ++ [.place now o]) = placedOrders ops ++ [o] := by
    simp [placedOrders, EngineOp.placed?]
  have hlast : o ∈ placedOrders (ops ++ [.place now o]) := by
    rw [hplaced]
    exact mem_append_right _ (mem_singleton.mpr rfl)
  -- whatever rests under the id of `o` has its key, so the insertion replaces it
  have hkey : ∀ x ∈ s.engine.orders, x.id = o.id → SameKey x o ∧ x.market = o.market := by
    intro x hx hxo
    obtain ⟨y, hy, hxy, hmarket, hside, hprice⟩ := h.resting_placed x hx
    have hymem : y ∈ placedOrders (ops ++ [.place now o]) := by
      rw [hplaced]
      exact mem_append_left _ hy
    obtain ⟨-, hm, hs, hp, -⟩ := hrep.same y hymem o hlast (hxy.symm.trans hxo)
    exact ⟨⟨hside.trans hs, hprice.trans hp, hcur.1 x hx hxo, hxo⟩, hmarket.trans hm⟩
  have hwf := h.wellFormed.insertOrder hkey (hrep.remaining o hlast).1
  have hperm := Engine.insertOrder_orders_perm h.wellFormed o
  have hout := Engine.placeOutcome hwf now
  have hevents := s.events_step_place now o
  have hbefore : ∀ y ∈ (s.engine.insertOrder o).orders, y = o ∨ y ∈ s.engine.orders := by
    intro y hy
    rcases mem_cons.mp (hperm.mem_iff.mp hy) with hy | hy
    · exact .inl hy
    · exact .inr (mem_of_mem_filter hy)
  refine ⟨hout.wellFormed, ?_, ?_, ?_⟩
  · intro x hx
    rw [hplaced]
    obtain ⟨y, hy, hxy, -⟩ := hout.from_before x hx
    rcases hbefore y hy with rfl | hy
    · refine ⟨y, mem_append_right _ (mem_singleton.mpr rfl), ?_⟩
      rw [hxy]
      exact ⟨rfl, rfl, rfl, rfl⟩
    · obtain ⟨z, hz, hyz⟩ := h.resting_placed y hy
      refine ⟨z, mem_append_left _ hz, ?_⟩
      rw [hxy]
      exact hyz
  · intro ev hev
    rw [hevents] at hev
    rcases mem_append.mp hev with hev | hev
    · exact h.quantity_pos ev hev
    · exact (hout.events ev hev).1
  · intro y hy
    have hcons : restingQty y.id (s.step (.place now o)).engine.orders +
        filledQty y.id (s.step (.place now o)).events =
          restingQty y.id (s.engine.insertOrder o).orders + filledQty y.id s.events := by
      rw [hevents, filledQty_append, ← hout.conserved y.id, add_comm (filledQty _ _),
        ← add_assoc]
      rfl
    rw [hcons]
    by_cases hyo : y.id = o.id
    · have hrest : restingQty y.id (s.engine.insertOrder o).orders = o.remaining := by
        rw [hyo]
        exact restingQty_of_mem hwf.distinct (hperm.mem_iff.mpr mem_cons_self)
      obtain ⟨-, -, -, -, hq⟩ := hrep.same y hy o hlast hyo
      rw [hrest, hq, hyo, add_comm]
      exact hcur.2
    · have hrest : restingQty y.id (s.engine.insertOrder o).orders ≤
          restingQty y.id s.engine.orders := by
        rw [restingQty_perm y.id hperm, ← singleton_append, restingQty_append,
          restingQty_eq_zero (l := [o]) (by simpa using Ne.symm hyo), zero_add]
        exact restingQty_filter_le h.wellFormed.positive _ y.id
      rw [hplaced] at hy
      rcases mem_append.mp hy with hy | hy
      · exact (add_le_add_left hrest _).trans (h.within y hy)
      · exact absurd (congrArg Order.id (mem_singleton.mp hy)) hyo

end WithinQuantity

theorem withinQuantity_run {ops : List EngineOp} (hrep : RepeatedPlacements ops)
    (hcur : Along EngineTrace.step CurrentOp ⟨Engine.new, []⟩ ops) :
    WithinQuantity ops (EngineTrace.run ops) := by
  induction ops using List.reverseRecOn with
  | nil => exact WithinQuantity.nil
  | append_singleton ops op ih =>
    obtain ⟨hinit, hop⟩ := along_concat.mp hcur
    have hacc := ih hrep.init hinit
    rw [EngineTrace.run_concat]
    cases op with
    | place now o => exact hacc.place hrep hop
    | cancel orderId => exact hacc.cancel orderId

/-- In a run whose placements are all up to date, at every point an id rests at
most once and its events stay within the quantity of the order. -/
theorem run_never_overfills (ops : List EngineOp)
    (hrep : RepeatedPlacements ops) (hcur : Along EngineTrace.step CurrentOp ⟨Engine.new, []⟩ ops) :
    ∀ pre post, ops = pre ++ post → ((EngineTrace.run pre).engine.orders.map Order.id).Nodup ∧
    ∀ o ∈ placedOrders pre, filledQty o.id (EngineTrace.run pre).events ≤ o.quantity := by
  rintro pre post rfl
  have hacc := withinQuantity_run hrep.init (along_append.mp hcur).1
  refine ⟨hacc.wellFormed.distinct, fun o ho => ?_⟩
  have hrest : 0 ≤ restingQty o.id (EngineTrace.run pre).engine.orders := by
    apply sum_nonneg
    intro q hq
    obtain ⟨x, hx, rfl⟩ := mem_map.mp hq
    exact (hacc.wellFormed.positive x (mem_of_mem_filter hx)).le
  exact (le_add_of_nonneg_left hrest).trans (hacc.within o ho)

/-- A sell of 2, of which 1 is filled, is placed again with the remainder that is
left, and then filled. -/
def currentReplayRun : List EngineOp :=
  [.place id ⟨1, 10, "BTC_USDT", .sell, .limit, some 100, 2, 2, 5⟩,
    .place id ⟨2, 11, "BTC_USDT", .buy, .limit, some 100, 1, 1, 6⟩,
    .place id ⟨1, 10, "BTC_USDT", .sell, .limit, some 100, 2, 1, 5⟩,
    .place id ⟨3, 12, "BTC_USDT", .buy, .limit, some 100, 2, 2, 7⟩]

theorem currentReplayRun_never_overfills : RepeatedPlacements currentReplayRun ∧
    Along EngineTrace.step CurrentOp ⟨Engine.new, []⟩ currentReplayRun ∧
    filledQty 1 (EngineTrace.run currentReplayRun).events = 2 ∧ ∀ pre post,
    currentReplayRun = pre ++ post → ((EngineTrace.run pre).engine.orders.map Order.id).Nodup ∧
    ∀ o ∈ placedOrders pre, filledQty o.id (EngineTrace.run pre).events ≤ o.quantity :=
  have hrep : RepeatedPlacements currentReplayRun := ⟨by decide +kernel, by decide +kernel⟩
  have hcur : Along EngineTrace.step CurrentOp ⟨Engine.new, []⟩ currentReplayRun := by
    decide +kernel
  ⟨hrep, hcur, by decide +kernel, run_never_overfills currentReplayRun hrep hcur⟩

/-- The same sell is placed again with its full quantity, as a backend does whose
tables do not hold the fill yet. -/
def staleReplayRun : List EngineOp :=
  [.place id ⟨1, 10, "BTC_USDT", .sell, .limit, some 100, 2, 2, 5⟩,
    .place id ⟨2, 11, "BTC_USDT", .buy, .limit, some 100, 1, 1, 6⟩,
    .place id ⟨1, 10, "BTC_USDT", .sell, .limit, some 100, 2, 2, 5⟩,
    .place id ⟨3, 12, "BTC_USDT", .buy, .limit, some 100, 2, 2, 7⟩]

/-- The same sell is placed again while it rests, with the creation time of the
backend's row, a second before the engine's. -/
def retimedReplayRun : List EngineOp :=
  [.place id ⟨1, 10, "BTC_USDT", .sell, .limit, some 100, 2, 2, 5⟩,
    .place id ⟨1, 10, "BTC_USDT", .sell, .limit, some 100, 2, 2, 4⟩]

/-- Both replays break the bound: the first fills the order beyond its quantity,
the second leaves two orders with one id in the book. -/
theorem replay_overfills : RepeatedPlacements staleReplayRun ∧
    filledQty 1 (EngineTrace.run staleReplayRun).events = 3 ∧ (∀ o ∈ placedOrders staleReplayRun,
    o.id = 1 → o.quantity = 2) ∧ RepeatedPlacements retimedReplayRun ∧
    (EngineTrace.run retimedReplayRun).engine.orders.map Order.id = [1, 1] :=
  ⟨⟨by decide +kernel, by decide +kernel⟩, by decide +kernel, by decide +kernel,
    ⟨by decide +kernel, by decide +kernel⟩, by decide +kernel⟩

end MetherCEX
