import MetherCEX.Spot.Traded

/-!
# Whether a closed order stays closed

The status of an order is written by the cancel routes, by the route and the stop service after a
failed call of the engine, and by the settlement of a fill. None of the cancels and settlements
looks at the status that is there.
-/

namespace MetherCEX

open Decimal Run Table List

def OrderRow.Closed (r : OrderRow) : Prop := r.status = .cancelled ∨ r.status = .filled
  deriving Decidable

/-- The rows that `replayOpenOrdersToRustEngine` places. -/
def replayOpenOrders (rows : List OrderRow) : List OrderRow :=
  rows.filter fun r => (r.status == .open || r.status == .partiallyFilled) &&
    (r.kind == .limit || r.kind == .market) && decide (0 < r.remaining)

theorem OrderRow.Closed.not_replayed {r : OrderRow} (h : r.Closed) (rows : List OrderRow) :
    r ∉ replayOpenOrders rows := by
  intro hmem
  have hstatus := (mem_filter.mp hmem).2
  rcases h with hcancelled | hfilled
  · simp [hcancelled] at hstatus
  · simp [hfilled] at hstatus

namespace SpotState

variable {s s' : SpotState}

namespace Traded

theorem erase (h : s.Traded) (i : ℕ) :
    { s with forwarded := s.forwarded.eraseIdx i }.Traded := by
  have hsub : ((s.forwarded.eraseIdx i).map (fun f => f.order.id) ++ s.placed).Sublist
      s.sentIds :=
    ((List.eraseIdx_sublist _ i).map _).append_right _
  exact
    { h with
      consistent := h.consistent.erase i
      once := h.once.sublist hsub
      waiting := fun r hr hpending hmem => h.waiting r hr hpending (hsub.subset hmem)
      sent_side := fun f hf => h.sent_side f (List.eraseIdx_subset hf) }

theorem not_mem_sentIds_erase (h : s.Traded) {i : ℕ} {f : Forwarded}
    (hget : s.forwarded[i]? = some f) :
    f.order.id ∉ { s with forwarded := s.forwarded.eraseIdx i }.sentIds := by
  have hperm : (f.order.id :: { s with forwarded := s.forwarded.eraseIdx i }.sentIds).Perm
      s.sentIds :=
    ((cons_eraseIdx_perm hget).map fun f : Forwarded => f.order.id).append_right _
  exact (nodup_cons.mp (hperm.nodup_iff.mpr h.once)).1

theorem engineFailed (h : s.Traded) {f : Forwarded} (hcons : (s.engineFailed f).Consistent)
    (hput : f.restore ≠ none → f.order.id ∉ s.sentIds) : (s.engineFailed f).Traded := by
  obtain ⟨g, hg, heq⟩ := s.engineFailed_eq f
  rw [heq] at hcons ⊢
  have hrow : ∀ r, (g r).terms = r.terms ∧
      ((g r).status = .pendingTrigger → r.status = .pendingTrigger ∨ f.restore ≠ none) := by
    intro r
    have hback := hg r
    generalize g r = r' at hback ⊢
    cases hback with
    | kept => exact ⟨rfl, .inl⟩
    | cancelled => exact ⟨rfl, fun h => (by cases h)⟩
    | waits hstop => exact ⟨rfl, fun _ => .inr (by simp [hstop])⟩
  refine { h with consistent := hcons, waiting := ?_, row_terms := ?_, read_stored := ?_ }
  · intro r' hr' hpending
    obtain ⟨r, hr, ⟨hid, rfl⟩ | ⟨-, rfl⟩⟩ := mem_updateOrder hr'
    · rw [(hg r).id_eq]
      exact ((hrow r).2 hpending).elim (h.waiting r hr) fun hstop => hid ▸ hput hstop
    · exact h.waiting _ hr hpending
  · intro r' hr' c hc
    obtain ⟨r, hr, ⟨-, rfl⟩ | ⟨-, rfl⟩⟩ := mem_updateOrder hr'
    · rw [(hrow r).1]
      exact h.row_terms r hr c ((hg r).id_eq ▸ hc)
    · exact h.row_terms _ hr c hc
  · rw [map_id_updateOrder fun r => (hg r).id_eq]
    exact h.read_stored

end Traded

/-- A step that settles nothing changes the row in this way: it keeps the status, cancels
the order, or opens or puts back an order that is not closed. -/
structure RowKept (r r' : OrderRow) : Prop where
  id_eq : r'.id = r.id
  quantity : r'.quantity = r.quantity
  filled : r'.filledQuantity = r.filledQuantity
  status : r'.status = r.status ∨ r'.status = .cancelled ∨ ¬ r.Closed ∧ r'.status ≠ .filled

theorem RowKept.refl (r : OrderRow) : RowKept r r := ⟨rfl, rfl, rfl, .inl rfl⟩

variable {r' r : OrderRow} {ev : MatchEvent} {cfg : RouteConfig}

theorem RowKept.closed (h : RowKept r r') (hr : r.Closed) : r'.Closed := by
  rcases h.status with hsame | hcancelled | ⟨hopen, -⟩
  · rwa [OrderRow.Closed, hsame]
  · exact .inl hcancelled
  · exact absurd hr hopen

theorem RowKept.of_filled (h : RowKept r r') (hr' : r'.status = .filled) : r.status = .filled := by
  rcases h.status with hsame | hcancelled | ⟨-, hne⟩
  · exact hsame.symm.trans hr'
  · rw [hcancelled] at hr'
    cases hr'
  · exact absurd hr' hne

/-- What a step does to the rows and to the events that wait for their settlement: it keeps
the filled quantities, or it settles an event. -/
inductive SettleStep (markets : Market → Option SpotMarket) (s : SpotState) (act : SpotAction)
    (s' : SpotState) : Prop
  | kept (g : OrderRow → OrderRow) (rows : ∀ r ∈ s.orders, RowKept r (g r))
      (stored : List OrderRow)
      (fresh : ∀ r ∈ stored, r.filledQuantity = 0 ∧ r.status ≠ .filled ∧
        r.id ∉ s.orders.map OrderRow.id)
      (orders : s'.orders = s.orders.map g ++ stored) (events : List MatchEvent)
      (unsettled : s'.unsettled = s.unsettled ++ events)
      (produced : s'.produced = s.produced ++ events)
  | settled (i : ℕ) (ev : MatchEvent) (m : SpotMarket) (hact : act = .settle i)
      (hget : s.unsettled[i]? = some ev) (hmarket : markets ev.market = some m)
      (orders : s'.orders = s.orders.map fun r =>
        if ev.Names r.id then r.addFilled (roundDown m.qtyPrecision ev.quantity) else r)
      (unsettled : s'.unsettled = s.unsettled.eraseIdx i)
      (produced : s'.produced = s.produced)

namespace SettleStep

variable {markets : Market → Option SpotMarket} {act : SpotAction}

theorem of_orders_eq (horders : s'.orders = s.orders) (events : List MatchEvent)
    (hunsettled : s'.unsettled = s.unsettled ++ events)
    (hproduced : s'.produced = s.produced ++ events) : SettleStep markets s act s' :=
  .kept id (fun r _ => .refl r) [] (forall_mem_nil _)
    (by rw [horders, map_id, append_nil]) events hunsettled hproduced

theorem of_same (horders : s'.orders = s.orders) (hunsettled : s'.unsettled = s.unsettled)
    (hproduced : s'.produced = s.produced) : SettleStep markets s act s' :=
  of_orders_eq horders [] (by rw [hunsettled, append_nil])
    (by rw [hproduced, append_nil])

theorem of_updateOrder {id : OrderId} {f : OrderRow → OrderRow}
    (horders : s'.orders = (s.updateOrder id f).orders) (hf : ∀ r ∈ s.orders, r.id = id →
    RowKept r (f r)) (events : List MatchEvent) (hunsettled : s'.unsettled = s.unsettled ++ events)
    (hproduced : s'.produced = s.produced ++ events) : SettleStep markets s act s' := by
  refine .kept (fun r => if r.id = id then f r else r) (fun r hr => ?_) []
    (forall_mem_nil _) (by rw [horders, append_nil]; rfl) events
    hunsettled hproduced
  split_ifs with hid
  · exact hf r hr hid
  · exact .refl r

end SettleStep

variable {markets : Market → Option SpotMarket} {act : SpotAction}

theorem orders_engineFailed (s : SpotState) (f : Forwarded) :
    ∃ g, s.engineFailed f = s.updateOrder f.order.id g ∧ ∀ r, RowKept r (g r) := by
  obtain ⟨g, hg, heq⟩ := s.engineFailed_eq f
  refine ⟨g, heq, fun r => ?_⟩
  have hback := hg r
  generalize g r = r' at hback ⊢
  cases hback with
  | kept => exact .refl r
  | cancelled => exact ⟨rfl, rfl, rfl, .inr (.inl rfl)⟩
  | waits _ hopen =>
    exact ⟨rfl, rfl, rfl, .inr (.inr ⟨by simp [OrderRow.Closed, hopen], by simp⟩)⟩

theorem names_iff (htwo : ev.takerOrderId ≠ ev.makerOrderId) (htaker : ev.Names ev.takerOrderId)
    (hmaker : ev.Names ev.makerOrderId) (id : OrderId) :
    ev.Names id ↔ id = ev.takerOrderId ∨ id = ev.makerOrderId := by
  rw [MatchEvent.Names] at *
  grind

theorem settleStep_settled (h : s.Traded) {i : ℕ} (hget : s.unsettled[i]? = some ev)
    {m : SpotMarket} (hmarket : markets ev.market = some m) :
    SettleStep markets s (.settle i)
      (({ s with unsettled := s.unsettled.eraseIdx i }.updateOrder ev.takerOrderId
        (·.addFilled (roundDown m.qtyPrecision ev.quantity))).updateOrder ev.makerOrderId
        (·.addFilled (roundDown m.qtyPrecision ev.quantity))) := by
  have hev := h.consistent.unsettled_produced (mem_of_getElem? hget)
  have htwo := (h.trades ev hev).two
  obtain ⟨htaker, hmaker⟩ := h.consistent.produced_legs ev hev
  refine .settled i ev m rfl hget hmarket ?_ rfl rfl
  change (s.orders.map _).map _ = _
  rw [map_map]
  refine map_congr_left fun r _ => ?_
  have hnames := names_iff htwo htaker hmaker r.id
  by_cases hrt : r.id = ev.takerOrderId
  · have hnot : ¬ ev.takerOrderId = ev.makerOrderId := htwo
    simp [hrt, hnot, htaker, OrderRow.addFilled]
  · by_cases hrm : r.id = ev.makerOrderId
    · simp [hrm, hmaker, htwo.symm]
    · simp [hrt, hrm, hnames]

theorem Change.settleStep (h : s.Traded) (hchange : Change cfg markets s act s') :
    SettleStep markets s act s' := by
  have hnil := fun es : List MatchEvent => (append_nil es).symm
  cases hchange with
  | same | checked | killed | read | told => exact .of_same rfl rfl rfl
  | @stored i id nowMs c _ hnew =>
    refine .kept (fun r => r) (fun r _ => .refl r) [c.row id] ?_ (by simp) [] (hnil _) (hnil _)
    rw [forall_mem_singleton]
    refine ⟨rfl, ?_, hnew⟩
    simp only [CheckedOrder.row]
    split_ifs <;> simp
  | placed => exact .of_orders_eq rfl _ rfl rfl
  | @refused i _ f _ =>
    obtain ⟨g, heq, hkept⟩ := orders_engineFailed
      { s with forwarded := s.forwarded.eraseIdx i } f
    rw [heq]
    exact .of_updateOrder rfl (fun r _ _ => hkept r) [] (hnil _) (hnil _)
  | @lost i clock f _ =>
    obtain ⟨g, heq, hkept⟩ := orders_engineFailed
      ({ s with forwarded := s.forwarded.eraseIdx i }.placeOnEngine clock f.order) f
    rw [heq]
    exact .of_updateOrder rfl (fun r _ _ => hkept r) _ rfl rfl
  | trailed =>
    exact .of_updateOrder rfl (fun x _ _ => ⟨rfl, rfl, rfl, .inl rfl⟩) [] (hnil _) (hnil _)
  | opened hr hpending =>
    refine .of_updateOrder rfl (fun x hx hid => ?_) [] (hnil _) (hnil _)
    obtain rfl := List.inj_on_of_nodup_map h.consistent.rows_nodup hx hr hid
    refine ⟨rfl, rfl, rfl, .inr (.inr ⟨?_, by simp⟩)⟩
    simp [OrderRow.Closed, hpending]
  | cancelled =>
    exact .of_updateOrder rfl (fun r _ _ => ⟨rfl, rfl, rfl, .inr (.inl rfl)⟩) [] (hnil _)
      (hnil _)
  | settled hget hmarket => exact settleStep_settled h hget hmarket

/-- A call for a stop order is not lost, and a fill of a cancelled order is settled only if it
fills the order. -/
def Orderly (markets : Market → Option SpotMarket) (s : SpotState) : SpotAction → Prop
  | .place i _ answer => answer = .lost → ∀ f ∈ s.forwarded[i]?, f.restore = none
  | .settle i => ∀ ev ∈ s.unsettled[i]?, ∀ m ∈ markets ev.market, ∀ r ∈ s.orders,
      ev.Names r.id → r.status = .cancelled →
        r.quantity - r.filledQuantity - roundDown m.qtyPrecision ev.quantity ≤ 0
  | _ => True

instance (markets : Market → Option SpotMarket) (s : SpotState) :
    ∀ act, Decidable (s.Orderly markets act)
  | .place .. => inferInstanceAs (Decidable (_ → ∀ f ∈ _, _))
  | .settle _ => inferInstanceAs (Decidable (∀ ev ∈ _, ∀ m ∈ _, ∀ r ∈ s.orders, _ → _))
  | .check .. | .commit .. | .trigger .. | .readCancel .. | .cancelOnEngine .. | .commitCancel .. =>
    .isTrue trivial

theorem Traded.orderly (h : s.Traded) (hchange : Change cfg markets s act s')
    (hact : s.Orderly markets act) : s'.Traded := by
  have hcons := h.consistent.change hchange
  cases act with
  | place i clock answer =>
    cases answer with
    | ok => exact h.change hchange rfl
    | refused =>
      cases hchange with
      | same => exact h
      | refused hget =>
        exact (h.erase i).engineFailed hcons fun _ => h.not_mem_sentIds_erase hget
    | lost =>
      cases hchange with
      | same => exact h
      | @lost _ _ f hget =>
        have hplaced : Change cfg markets s (.place i clock .ok) _ := .placed hget
        exact (h.change hplaced rfl).engineFailed hcons fun hstop =>
          absurd (hact rfl f hget) hstop
  | _ => exact h.change hchange trivial

/-- What is settled of an order and what waits for its settlement was traded, and an order
that is filled is full. -/
structure Tallied (s : SpotState) : Prop where
  traded : s.Traded
  settled : ∀ r ∈ s.orders,
    r.filledQuantity + filledQty r.id s.unsettled ≤ filledQty r.id s.produced
  full : ∀ r ∈ s.orders, r.status = .filled → r.quantity ≤ r.filledQuantity

namespace Tallied

theorem init : SpotState.init.Tallied :=
  ⟨.init, forall_mem_nil _, forall_mem_nil _⟩

theorem filledQuantity_le (h : s.Tallied) {r : OrderRow} (hr : r ∈ s.orders) :
    r.filledQuantity ≤ r.quantity := by
  obtain ⟨c, hc, hrow⟩ := h.traded.consistent.exists_request hr
  have hquantity := hrow.quantity
  have hwithin := h.traded.within r.id c hc
  have hunsettled : 0 ≤ filledQty r.id s.unsettled := filledQty_nonneg fun ev hev =>
    (h.traded.trades ev (h.traded.consistent.unsettled_produced hev)).pos
  have hresting : 0 ≤ restingQty r.id s.engine.orders :=
    restingQty_nonneg h.traded.wellFormed.positive r.id
  have hsettled := h.settled r hr
  linarith

theorem untraded (h : s.Tallied) {id : OrderId} (hid : id ∉ s.orders.map OrderRow.id)
    {events : List MatchEvent} (hevents : events ⊆ s.produced) : filledQty id events = 0 := by
  refine filledQty_eq_zero fun ev hev hnames => hid ?_
  rw [h.traded.consistent.ids_eq]
  exact h.traded.consistent.placed_accepted id
    (h.traded.consistent.produced_placed ev (hevents hev) id hnames)

theorem step (h : s.Tallied) (htraded : s'.Traded) (hstep : SettleStep markets s act s') :
    s'.Tallied := by
  cases hstep with
  | kept g hrows stored hfresh horders events hunsettled hproduced =>
    refine ⟨htraded, fun r hr => ?_, fun r hr hfilled => ?_⟩
    · rw [hunsettled, hproduced, filledQty_append, filledQty_append]
      rw [horders] at hr
      rcases mem_append.mp hr with hr | hr
      · obtain ⟨x, hx, rfl⟩ := mem_map.mp hr
        have hsettled := h.settled x hx
        rw [(hrows x hx).filled, (hrows x hx).id_eq]
        linarith
      · obtain ⟨hzero, -, hnew⟩ := hfresh r hr
        rw [hzero, h.untraded hnew h.traded.consistent.unsettled_produced,
          h.untraded hnew (List.Subset.refl _)]
        linarith
    · rw [horders] at hr
      rcases mem_append.mp hr with hr | hr
      · obtain ⟨x, hx, rfl⟩ := mem_map.mp hr
        rw [(hrows x hx).filled, (hrows x hx).quantity]
        exact h.full x hx ((hrows x hx).of_filled hfilled)
      · exact absurd hfilled (hfresh r hr).2.1
  | settled i ev m hact hget hmarket horders hunsettled hproduced =>
    have hev := h.traded.consistent.unsettled_produced (mem_of_getElem? hget)
    have hround : roundDown m.qtyPrecision ev.quantity ≤ ev.quantity :=
      roundDown_le (h.traded.trades ev hev).pos.le
    refine ⟨htraded, fun r hr => ?_, fun r hr hfilled => ?_⟩
    · rw [horders] at hr
      obtain ⟨x, hx, rfl⟩ := mem_map.mp hr
      have hsettled := h.settled x hx
      rw [filledQty_of_getElem? hget] at hsettled
      rw [hunsettled, hproduced]
      split_ifs at hsettled ⊢ with hnames
      · change x.filledQuantity + roundDown m.qtyPrecision ev.quantity +
          filledQty x.id (s.unsettled.eraseIdx i) ≤ filledQty x.id s.produced
        linarith
      · linarith
    · rw [horders] at hr
      obtain ⟨x, hx, rfl⟩ := mem_map.mp hr
      split_ifs at hfilled ⊢
      · simp only [OrderRow.addFilled] at hfilled ⊢
        split_ifs at hfilled with hrest
        linarith
      · exact h.full x hx hfilled

end Tallied

/-- Every row is there later, with at least the filled quantity it had, and closed if it was
closed. -/
def Ahead (s s' : SpotState) : Prop :=
  ∀ r ∈ s.orders, ∃ r' ∈ s'.orders, r'.id = r.id ∧ r.filledQuantity ≤ r'.filledQuantity ∧
    (r.Closed → r'.Closed)

theorem Ahead.refl (s : SpotState) : Ahead s s := fun r hr => ⟨r, hr, rfl, le_rfl, fun h => h⟩

theorem Ahead.trans {s'' : SpotState} (h : Ahead s s') (h' : Ahead s' s'') : Ahead s s'' := by
  intro r hr
  obtain ⟨r', hr', hid, hfilled, hclosed⟩ := h r hr
  obtain ⟨r'', hr'', hid', hfilled', hclosed'⟩ := h' r' hr'
  exact ⟨r'', hr'', hid'.trans hid, hfilled.trans hfilled', fun hc => hclosed' (hclosed hc)⟩

theorem SettleStep.ahead (hstep : SettleStep markets s act s') (h : s.Tallied)
    (hact : s.Orderly markets act) : Ahead s s' := by
  cases hstep with
  | kept g hrows stored hfresh horders events hunsettled hproduced =>
    intro r hr
    refine ⟨g r, ?_, (hrows r hr).id_eq, (hrows r hr).filled.ge, (hrows r hr).closed⟩
    rw [horders]
    exact mem_append_left _ (mem_map_of_mem hr)
  | settled i ev m hsettle hget hmarket horders hunsettled hproduced =>
    intro r hr
    refine ⟨_, horders ▸ mem_map_of_mem hr, ?_⟩
    have hev := h.traded.consistent.unsettled_produced (mem_of_getElem? hget)
    have hround : 0 ≤ roundDown m.qtyPrecision ev.quantity :=
      roundDown_nonneg (h.traded.trades ev hev).pos.le
    split_ifs with hnames
    · refine ⟨rfl, le_add_of_nonneg_right hround, fun hclosed => .inr ?_⟩
      have hrest : r.quantity - r.filledQuantity - roundDown m.qtyPrecision ev.quantity ≤ 0 := by
        rcases hclosed with hcancelled | hfilled
        · rw [hsettle] at hact
          exact hact ev hget m hmarket r hr hnames hcancelled
        · have hfull := h.full r hr hfilled
          linarith
      exact if_pos hrest
    · exact ⟨rfl, le_rfl, fun hclosed => hclosed⟩

theorem tallied_ahead {acts : List SpotAction} (h : s.Tallied) (horderly : Along (SpotState.step
    cfg markets) (Orderly markets) s acts) : (acts.foldl (SpotState.step cfg markets) s).Tallied ∧
    Ahead s (acts.foldl (SpotState.step cfg markets) s) := by
  induction acts generalizing s with
  | nil => exact ⟨h, .refl s⟩
  | cons act acts ih =>
    have hchange := s.change_of_step cfg markets act
    have hstep := hchange.settleStep h.traded
    have hnext := h.step (h.traded.orderly hchange horderly.1) hstep
    obtain ⟨htallied, hahead⟩ := ih hnext horderly.2
    exact ⟨htallied, (hstep.ahead h horderly.1).trans hahead⟩

end SpotState

def halfSold : List SpotAction :=
  placeNow 7 (sampleBody "sell" "limit" "gtc" (.finite 100) 2 false) 1 1000 ++
    placeNow 8 (sampleBody "buy" "limit" "gtc" (.finite 100) 1 false) 2 2000

def cancelSell : List SpotAction := [.readCancel 7 1, .cancelOnEngine 0, .commitCancel 0]

def stopPlacedTwice : List SpotAction :=
  placeNow 7 (sampleBody "sell" "limit" "gtc" (.finite 100) 2 false) 1 1000 ++
    [.check 8 { sampleBody "buy" "stop_limit" "gtc" (.finite 100) 1 false with
        stopPrice := .finite 99 },
      .commit 0 2 2000, .trigger 2 99 3000, .place 0 (fun _ => 3000) .lost,
      .trigger 2 99 4000, .place 0 (fun _ => 4000) .ok, .settle 0, .settle 0]

end MetherCEX
