import MetherCEX.Engine.Placement

/-!
# Quantity conservation over runs

A run is a finite sequence of placements and cancellations from `Engine::new`, together with the
events its placements returned.
-/

namespace MetherCEX

open List

/-- A call of the engine; a placement comes with its readings of the clock. -/
inductive EngineOp
  | place (now : ℕ → ℕ) (o : Order)
  | cancel (orderId : OrderId)

structure EngineTrace where
  engine : Engine
  returned : List (ℕ × MatchEvent)

namespace EngineTrace

def events (s : EngineTrace) : List MatchEvent := s.returned.map Prod.snd

def step (s : EngineTrace) : EngineOp → EngineTrace
  | .place now o =>
    let (engine, pairs) := s.engine.placeOrder now o
    ⟨engine, s.returned ++ pairs⟩
  | .cancel orderId => { s with engine := s.engine.cancelOrder orderId }

/-- The calls one after the other, from `Engine::new`. -/
def run (ops : List EngineOp) : EngineTrace := ops.foldl step ⟨Engine.new, []⟩

@[simp] theorem run_concat (ops : List EngineOp) (op : EngineOp) :
    run (ops ++ [op]) = (run ops).step op := by
  simp [run]

theorem events_step_place (s : EngineTrace) (now : ℕ → ℕ) (o : Order) :
    (s.step (.place now o)).events = s.events ++ (s.engine.placeOrder now o).2.map Prod.snd :=
  map_append

end EngineTrace

def EngineOp.placed? : EngineOp → Option Order
  | .place _ o => some o
  | .cancel _ => none

def placedOrders (ops : List EngineOp) : List Order := ops.filterMap EngineOp.placed?

def placedIds (ops : List EngineOp) : List OrderId := (placedOrders ops).map Order.id

@[simp] theorem placedIds_concat_place (ops : List EngineOp) (now : ℕ → ℕ) (o : Order) :
    placedIds (ops ++ [.place now o]) = placedIds ops ++ [o.id] := by
  simp [placedIds, placedOrders, EngineOp.placed?]

@[simp] theorem placedIds_concat_cancel (ops : List EngineOp) (orderId : OrderId) :
    placedIds (ops ++ [.cancel orderId]) = placedIds ops := by
  simp [placedIds, placedOrders, EngineOp.placed?]

theorem mem_placedIds_of_append {ops pre post : List EngineOp} {now : ℕ → ℕ} {o : Order}
    (h : ops = pre ++ .place now o :: post) : o.id ∈ placedIds ops := by
  subst h
  simp [placedIds, placedOrders, EngineOp.placed?]

/-- The calls of the run place fresh ids and positive quantities. -/
structure FreshPlacements (ops : List EngineOp) : Prop where
  nodup : (placedIds ops).Nodup
  positive : ∀ o ∈ placedOrders ops, 0 < o.remaining

namespace FreshPlacements

variable {ops : List EngineOp}

theorem init {op : EngineOp} (h : FreshPlacements (ops ++ [op])) : FreshPlacements ops := by
  obtain ⟨hnodup, hpos⟩ := h
  rw [placedIds, placedOrders, filterMap_append, map_append] at hnodup
  refine ⟨(nodup_append.mp hnodup).1, fun o ho => hpos o ?_⟩
  rw [placedOrders, filterMap_append]
  exact mem_append_left _ ho

theorem last {now : ℕ → ℕ} {o : Order} (h : FreshPlacements (ops ++ [.place now o])) :
    o.id ∉ placedIds ops ∧ 0 < o.remaining := by
  obtain ⟨hnodup, hpos⟩ := h
  rw [placedIds_concat_place] at hnodup
  refine ⟨fun hmem => ?_, hpos o (by simp [placedOrders, EngineOp.placed?])⟩
  exact (nodup_append.mp hnodup).2.2 _ hmem _ (mem_singleton.mpr rfl) rfl

end FreshPlacements

theorem concat_eq_append_cons {α : Type*} {l pre post : List α} {a b : α}
    (h : l ++ [b] = pre ++ a :: post) :
    (post = [] ∧ l = pre ∧ b = a) ∨ ∃ post', post = post' ++ [b] ∧ l = pre ++ a :: post' := by
  rcases eq_nil_or_concat' post with rfl | ⟨post', c, rfl⟩
  · obtain ⟨hl, hb⟩ := append_inj' h rfl
    exact .inl ⟨rfl, hl, (List.cons.inj hb).1⟩
  · rw [← cons_append, ← append_assoc] at h
    obtain ⟨hl, hb⟩ := append_inj' h rfl
    obtain rfl := (List.cons.inj hb).1
    exact .inr ⟨post', rfl, hl⟩

/-- The books of the run `ops` account for every quantity that was placed. -/
structure Accounts (ops : List EngineOp) (s : EngineTrace) : Prop where
  wellFormed : s.engine.WellFormed
  resting_placed : ∀ x ∈ s.engine.orders, x.id ∈ placedIds ops
  named_placed : ∀ ev ∈ s.events, ∀ x, ev.Names x → x ∈ placedIds ops
  quantity_pos : ∀ ev ∈ s.events, 0 < ev.quantity
  balance : ∀ pre now o post, ops = pre ++ .place now o :: post → .cancel o.id ∉ post →
    o.remaining = restingQty o.id s.engine.orders + filledQty o.id s.events
  cancelled : ∀ pre id post, ops = pre ++ .cancel id :: post → id ∉ placedIds post →
    ∀ x ∈ s.engine.orders, x.id ≠ id
  quiet : ∀ pre id post, ops = pre ++ .cancel id :: post → id ∉ placedIds post →
    ∃ later, s.events = (EngineTrace.run (pre ++ [.cancel id])).events ++ later ∧
      ∀ ev ∈ later, ¬ ev.Names id

namespace Accounts

variable {ops : List EngineOp} {s : EngineTrace}

theorem nil : Accounts [] (EngineTrace.run []) := by
  refine ⟨Engine.WellFormed.new, ?_, ?_, ?_, ?_, ?_, ?_⟩
  · exact forall_mem_nil _
  · exact forall_mem_nil _
  · exact forall_mem_nil _
  · exact fun pre now o post h => absurd h (by simp)
  · exact fun pre id post h => absurd h (by simp)
  · exact fun pre id post h => absurd h (by simp)

theorem cancel (h : Accounts ops s) (hs : s = EngineTrace.run ops) (orderId : OrderId) :
    Accounts (ops ++ [.cancel orderId]) (s.step (.cancel orderId)) := by
  have horders : (s.step (.cancel orderId)).engine.orders =
      s.engine.orders.filter fun x => decide (x.id ≠ orderId) :=
    s.engine.orders_cancelOrder orderId
  refine ⟨h.wellFormed.cancelOrder orderId, ?_, ?_, h.quantity_pos, ?_, ?_, ?_⟩
  · intro x hx
    rw [horders] at hx
    rw [placedIds_concat_cancel]
    exact h.resting_placed x (mem_of_mem_filter hx)
  · rw [placedIds_concat_cancel]
    exact h.named_placed
  · intro pre now o post hops hnot
    rcases concat_eq_append_cons hops with ⟨-, -, hop⟩ | ⟨post', rfl, hpre⟩
    · cases hop
    · have hne : o.id ≠ orderId := by
        rintro rfl
        exact hnot (by simp)
      have hsame : restingQty o.id (s.step (.cancel orderId)).engine.orders =
          restingQty o.id s.engine.orders := by
        rw [horders]
        exact restingQty_filter fun x _ hx => decide_eq_true (hx ▸ hne)
      rw [hsame]
      exact h.balance pre now o post' hpre fun hmem => hnot (mem_append_left _ hmem)
  · intro pre id post hops hnot x hx
    rw [horders] at hx
    obtain ⟨hx, hxid⟩ := mem_filter.mp hx
    rcases concat_eq_append_cons hops with ⟨-, -, hop⟩ | ⟨post', rfl, hpre⟩
    · cases hop
      exact of_decide_eq_true hxid
    · rw [placedIds_concat_cancel] at hnot
      exact h.cancelled pre id post' hpre hnot x hx
  · intro pre id post hops hnot
    rcases concat_eq_append_cons hops with ⟨-, rfl, hop⟩ | ⟨post', rfl, hpre⟩
    · cases hop
      refine ⟨[], ?_, nofun⟩
      rw [EngineTrace.run_concat, hs, append_nil]
    · rw [placedIds_concat_cancel] at hnot
      exact h.quiet pre id post' hpre hnot

theorem place (h : Accounts ops s) {o : Order} (hfresh : o.id ∉ placedIds ops) (hpos : 0 <
    o.remaining) (now : ℕ → ℕ) : Accounts (ops ++ [.place now o]) (s.step (.place now o)) := by
  have hnew : ∀ x ∈ s.engine.orders, x.id ≠ o.id := fun x hx hxo =>
    hfresh (hxo ▸ h.resting_placed x hx)
  have hwf : (s.engine.insertOrder o).WellFormed :=
    h.wellFormed.insertOrder (fun x hx hxo => absurd hxo (hnew x hx)) hpos
  have hperm := Engine.insertOrder_orders_perm_of_fresh h.wellFormed hnew
  have hout := Engine.placeOutcome hwf now
  have hbefore : ∀ y ∈ (s.engine.insertOrder o).orders, y = o ∨ y ∈ s.engine.orders :=
    fun y hy => mem_cons.mp (hperm.mem_iff.mp hy)
  have hnamed : ∀ ev ∈ (s.engine.placeOrder now o).2.map Prod.snd, ∀ x, ev.Names x →
      x = o.id ∨ ∃ m ∈ s.engine.orders, m.id = x := by
    intro ev hev x hx
    obtain ⟨-, -, m, hm, hne, hnames⟩ := hout.events ev hev
    rcases (hnames x).mp hx with rfl | rfl
    · exact .inl rfl
    · rcases hbefore m hm with rfl | hm
      · exact absurd rfl hne
      · exact .inr ⟨m, hm, rfl⟩
  have hevents := s.events_step_place now o
  refine ⟨hout.wellFormed, ?_, ?_, ?_, ?_, ?_, ?_⟩
  · intro x hx
    rw [placedIds_concat_place]
    obtain ⟨y, hy, hxy, -⟩ := hout.from_before x hx
    rw [hxy, Order.withRemaining_id]
    rcases hbefore y hy with rfl | hy
    · exact mem_append_right _ (mem_singleton.mpr rfl)
    · exact mem_append_left _ (h.resting_placed y hy)
  · intro ev hev x hx
    rw [placedIds_concat_place]
    rw [hevents] at hev
    rcases mem_append.mp hev with hev | hev
    · exact mem_append_left _ (h.named_placed ev hev x hx)
    · rcases hnamed ev hev x hx with rfl | ⟨m, hm, rfl⟩
      · exact mem_append_right _ (mem_singleton.mpr rfl)
      · exact mem_append_left _ (h.resting_placed m hm)
  · intro ev hev
    rw [hevents] at hev
    rcases mem_append.mp hev with hev | hev
    · exact h.quantity_pos ev hev
    · exact (hout.events ev hev).1
  · intro pre now' x post hops hnot
    have hcons : restingQty x.id (s.step (.place now o)).engine.orders +
        filledQty x.id (s.step (.place now o)).events =
          restingQty x.id (o :: s.engine.orders) + filledQty x.id s.events := by
      rw [hevents, filledQty_append, ← restingQty_perm x.id hperm, ← hout.conserved x.id]
      rw [add_comm (filledQty _ _), ← add_assoc]
      rfl
    rw [hcons, ← singleton_append, restingQty_append]
    rcases concat_eq_append_cons hops with ⟨-, -, hop⟩ | ⟨post', rfl, hpre⟩
    · -- the order just placed rests in full before it is matched
      cases hop
      have hzero : filledQty o.id s.events = 0 :=
        filledQty_eq_zero fun ev hev hx => hfresh (h.named_placed ev hev _ hx)
      rw [restingQty_eq_zero hnew, hzero]
      simp [restingQty]
    · have hne : o.id ≠ x.id := fun heq => hfresh (heq ▸ mem_placedIds_of_append hpre)
      rw [restingQty_eq_zero (l := [o]) (by simpa using hne), zero_add]
      exact h.balance pre now' x post' hpre fun hmem => hnot (mem_append_left _ hmem)
  · intro pre id post hops hnot x hx
    rcases concat_eq_append_cons hops with ⟨-, -, hop⟩ | ⟨post', rfl, hpre⟩
    · cases hop
    · rw [placedIds_concat_place, mem_append, mem_singleton, not_or] at hnot
      obtain ⟨y, hy, hxy, -⟩ := hout.from_before x hx
      rw [hxy, Order.withRemaining_id]
      rcases hbefore y hy with rfl | hy
      · exact Ne.symm hnot.2
      · exact h.cancelled pre id post' hpre hnot.1 y hy
  · intro pre id post hops hnot
    rcases concat_eq_append_cons hops with ⟨-, -, hop⟩ | ⟨post', rfl, hpre⟩
    · cases hop
    · rw [placedIds_concat_place, mem_append, mem_singleton, not_or] at hnot
      obtain ⟨later, hlater, hquiet⟩ := h.quiet pre id post' hpre hnot.1
      refine ⟨later ++ (s.engine.placeOrder now o).2.map Prod.snd, ?_, ?_⟩
      · rw [hevents, hlater, append_assoc]
      · intro ev hev hx
        rcases mem_append.mp hev with hev | hev
        · exact hquiet ev hev hx
        · rcases hnamed ev hev id hx with rfl | ⟨m, hm, hmid⟩
          · exact hnot.2 rfl
          · exact h.cancelled pre id post' hpre hnot.1 m hm hmid

end Accounts

theorem accounts_run {ops : List EngineOp} (h : FreshPlacements ops) :
    Accounts ops (EngineTrace.run ops) := by
  induction ops using List.reverseRecOn with
  | nil => exact Accounts.nil
  | append_singleton ops op ih =>
    rw [EngineTrace.run_concat]
    cases op with
    | place now o => exact (ih h.init).place h.last.1 h.last.2 now
    | cancel orderId => exact (ih h.init).cancel rfl orderId

/-- Conservation over whole runs. An order that was placed and not cancelled
since has its initial quantity split between the book and the events; events and
resting orders are positive; an id rests at most once in the whole engine, in the
book of the order's market and on its side; and no event after the cancellation
of an id names it. -/
theorem run_conserves_quantity (ops : List EngineOp) (h : FreshPlacements ops) : (∀ pre now o post,
    ops = pre ++ .place now o :: post → .cancel o.id ∉ post → o.remaining = restingQty o.id
    (EngineTrace.run ops).engine.orders + filledQty o.id (EngineTrace.run ops).events) ∧ (∀ ev ∈
    (EngineTrace.run ops).events, 0 < ev.quantity) ∧ (∀ x ∈ (EngineTrace.run ops).engine.orders,
    0 < x.remaining) ∧ ((EngineTrace.run ops).engine.orders.map Order.id).Nodup ∧
    (∀ p ∈ (EngineTrace.run ops).engine.orderBooks.entries, ∀ side, ∀ x ∈ p.2.ordersOn side,
    x.market = p.1 ∧ x.side = side) ∧ (∀ pre id post, ops = pre ++ .cancel id :: post →
    (id ∈ placedIds pre ∨ id ∉ placedIds post) → ∃ later, (EngineTrace.run ops).events =
    (EngineTrace.run (pre ++ [.cancel id])).events ++ later ∧ ∀ ev ∈ later, ¬ ev.Names id) := by
  have hacc := accounts_run h
  refine ⟨hacc.balance, hacc.quantity_pos, hacc.wellFormed.positive,
    hacc.wellFormed.distinct, ?_, ?_⟩
  · intro p hp side x hx
    exact ⟨hacc.wellFormed.market_eq p hp x (OrderBook.mem_orders_of_mem_ordersOn hx),
      OrderBook.side_of_mem_ordersOn hx⟩
  · intro pre id post hops hid
    refine hacc.quiet pre id post hops ?_
    rcases hid with hid | hid
    · -- the ids of the run are distinct, so an id placed before is not placed again
      have hnodup := h.nodup
      rw [hops, placedIds, placedOrders, filterMap_append, map_append] at hnodup
      exact fun hmem => (nodup_append.mp hnodup).2.2 id hid id hmem rfl
    · exact hid

def cancelAfterFillRun : List EngineOp :=
  [.place id ⟨1, 10, "BTC_USDT", .sell, .limit, some 100, 2, 2, 5⟩,
    .place id ⟨2, 11, "BTC_USDT", .buy, .limit, some 100, 1, 1, 6⟩,
    .cancel 1,
    .place id ⟨3, 12, "BTC_USDT", .buy, .limit, none, 4, 4, 7⟩]

theorem cancelAfterFillRun_conserves_quantity : FreshPlacements cancelAfterFillRun ∧
    (∀ pre now o post, cancelAfterFillRun = pre ++ .place now o :: post → .cancel o.id ∉ post →
    o.remaining = restingQty o.id (EngineTrace.run cancelAfterFillRun).engine.orders
    + filledQty o.id (EngineTrace.run cancelAfterFillRun).events) ∧
    (EngineTrace.run cancelAfterFillRun).events.map MatchEvent.quantity = [1] :=
  have hfresh : FreshPlacements cancelAfterFillRun := ⟨by decide, by decide +kernel⟩
  ⟨hfresh, (run_conserves_quantity cancelAfterFillRun hfresh).1, by decide +kernel⟩

end MetherCEX
