import MetherCEX.Engine.Taker
import MetherCEX.Lib.Table
import MetherCEX.Spot.Orders

/-!
# The table and the engine fit together

`SpotState.Consistent` collects what every reachable state of the order system
satisfies: rows and requests have the same ids, an order of the route is placed at
most once, whatever rests on the engine or was matched there had been placed, and a
row has a filled quantity only if the engine has matched it.
-/

namespace MetherCEX

open Decimal Run Table List

structure RowOf (produced : List MatchEvent) (r : OrderRow) (c : CheckedOrder) : Prop where
  quantity : r.quantity = c.qtyRounded
  stop : r.status = .pendingTrigger → c.kind.isStop = true
  filled : r.filledQuantity ≠ 0 → ∃ ev ∈ produced, ev.Names r.id

/-- `f` is on its way to the engine for the request `c`. -/
structure ForwardedOf (produced : List MatchEvent) (f : Forwarded) (c : CheckedOrder) :
    Prop where
  nonneg : 0 ≤ f.order.remaining
  route : f.restore = none → c.kind.isStop = false ∧
    ∃ nowMs, f.order = c.rustOrder f.order.id nowMs
  stop : f.restore ≠ none → c.kind.isStop = true ∧ 0 < f.order.remaining
  whole : f.order.remaining = c.qtyRounded ∨ ∃ ev ∈ produced, ev.Names f.order.id

variable {produced produced' : List MatchEvent} {c : CheckedOrder}

theorem RowOf.mono {r : OrderRow} (h : RowOf produced r c) (hsub : produced ⊆ produced') :
    RowOf produced' r c := by
  refine ⟨h.quantity, h.stop, fun hne => ?_⟩
  obtain ⟨ev, hev, hnames⟩ := h.filled hne
  exact ⟨ev, hsub hev, hnames⟩

theorem ForwardedOf.mono {f : Forwarded} (h : ForwardedOf produced f c)
    (hsub : produced ⊆ produced') : ForwardedOf produced' f c := by
  refine ⟨h.nonneg, h.route, h.stop, h.whole.imp_right ?_⟩
  rintro ⟨ev, hev, hnames⟩
  exact ⟨ev, hsub hev, hnames⟩

namespace SpotState

structure Consistent (s : SpotState) : Prop where
  ids_eq : s.orders.map OrderRow.id = s.accepted.map Prod.fst
  ids_nodup : (s.accepted.map Prod.fst).Nodup
  checked_valid : ∀ c ∈ s.checked, c.Valid
  accepted_valid : ∀ a ∈ s.accepted, a.2.Valid
  row_of : ∀ r ∈ s.orders, ∀ c, (r.id, c) ∈ s.accepted → RowOf s.produced r c
  forwarded_of : ∀ f ∈ s.forwarded, ∃ c, (f.order.id, c) ∈ s.accepted ∧
    ForwardedOf s.produced f c
  route_new : ∀ f ∈ s.forwarded, f.restore = none → f.order.id ∉ s.placed
  route_nodup : ((s.forwarded.filter fun f => f.restore.isNone).map fun f => f.order.id).Nodup
  resting_placed : ∀ x ∈ s.engine.orders, x.id ∈ s.placed
  resting_pos : ∀ x ∈ s.engine.orders, 0 < x.remaining
  produced_placed : ∀ ev ∈ s.produced, ∀ z, ev.Names z → z ∈ s.placed
  produced_legs : ∀ ev ∈ s.produced, ev.Names ev.takerOrderId ∧ ev.Names ev.makerOrderId
  placed_accepted : ∀ id ∈ s.placed, id ∈ s.accepted.map Prod.fst
  unsettled_produced : s.unsettled ⊆ s.produced

variable {s s' : SpotState}

theorem map_id_updateOrder {id : OrderId} {f : OrderRow → OrderRow} (hf : ∀ r, (f r).id = r.id) :
    (s.updateOrder id f).orders.map OrderRow.id = s.orders.map OrderRow.id := by
  rw [updateOrder, map_map]
  apply map_congr_left
  intro r _
  change (if r.id = id then f r else r).id = r.id
  split_ifs
  · exact hf r
  · rfl

theorem mem_updateOrder {id : OrderId} {f : OrderRow → OrderRow} {r' : OrderRow} (h : r' ∈
    (s.updateOrder id f).orders) : ∃ r ∈ s.orders, r.id = id ∧ r' = f r ∨ r.id ≠ id ∧ r' = r := by
  obtain ⟨r, hr, rfl⟩ := mem_map.mp h
  refine ⟨r, hr, ?_⟩
  split_ifs with hid
  · exact .inl ⟨hid, rfl⟩
  · exact .inr ⟨hid, rfl⟩

/-- What a caller does to the row of its order after a failed call. -/
inductive TakenBack (f : Forwarded) (r : OrderRow) : OrderRow → Prop
  | kept : TakenBack f r r
  | cancelled (hroute : f.restore = none) : TakenBack f r { r with status := .cancelled }
  | waits {kind : OrderKind} (hstop : f.restore = some kind) (hopen : r.status = .open) :
      TakenBack f r { r with status := .pendingTrigger, kind := kind }

theorem TakenBack.id_eq {f : Forwarded} {r r' : OrderRow} (h : TakenBack f r r') :
    r'.id = r.id := by
  cases h <;> rfl

theorem engineFailed_eq (s : SpotState) (f : Forwarded) :
    ∃ g, (∀ r, TakenBack f r (g r)) ∧ s.engineFailed f = s.updateOrder f.order.id g := by
  rw [engineFailed]
  split
  case h_1 hroute => exact ⟨_, fun r => .cancelled hroute, rfl⟩
  case h_2 kind hstop =>
    refine ⟨_, fun r => ?_, rfl⟩
    split_ifs with hopen
    · exact .waits hstop hopen
    · exact .kept

theorem engineFailed_with (s : SpotState) (f : Forwarded) :
    s.engineFailed f = { s with orders := (s.engineFailed f).orders } := by
  obtain ⟨g, -, heq⟩ := s.engineFailed_eq f
  rw [heq]
  rfl

section EngineFailed

variable (s : SpotState) (f : Forwarded)

@[simp] theorem forwarded_engineFailed : (s.engineFailed f).forwarded = s.forwarded := by
  rw [engineFailed_with]

@[simp] theorem engine_engineFailed : (s.engineFailed f).engine = s.engine := by
  rw [engineFailed_with]

@[simp] theorem cancelling_engineFailed : (s.engineFailed f).cancelling = s.cancelling := by
  rw [engineFailed_with]

@[simp] theorem produced_engineFailed : (s.engineFailed f).produced = s.produced := by
  rw [engineFailed_with]

end EngineFailed

inductive Change (cfg : RouteConfig) (markets : Market → Option SpotMarket) (s : SpotState) :
    SpotAction → SpotState → Prop
  | same {act : SpotAction} : Change cfg markets s act s
  | checked {userId : UserId} {body : PlaceBody} {c : CheckedOrder}
      (hcheck : checkOrder cfg markets (bestPrices s.orders) userId body = .ok c) :
      Change cfg markets s (.check userId body) { s with checked := s.checked ++ [c] }
  | killed {i : ℕ} {id : OrderId} {nowMs : ℕ} :
      Change cfg markets s (.commit i id nowMs) { s with checked := s.checked.eraseIdx i }
  | stored {i : ℕ} {id : OrderId} {nowMs : ℕ} {c : CheckedOrder} (hget : s.checked[i]? = some c)
      (hnew : id ∉ s.orders.map OrderRow.id) :
      Change cfg markets s (.commit i id nowMs)
        { s with
          checked := s.checked.eraseIdx i
          orders := s.orders ++ [c.row id]
          forwarded :=
            if c.kind.isStop then s.forwarded
            else s.forwarded ++ [⟨c.rustOrder id nowMs, none⟩]
          accepted := s.accepted ++ [(id, c)] }
  | placed {i : ℕ} {clock : ℕ → ℕ} {f : Forwarded} (hget : s.forwarded[i]? = some f) :
      Change cfg markets s (.place i clock .ok)
        ({ s with forwarded := s.forwarded.eraseIdx i }.placeOnEngine clock f.order)
  | refused {i : ℕ} {clock : ℕ → ℕ} {f : Forwarded} (hget : s.forwarded[i]? = some f) :
      Change cfg markets s (.place i clock .refused)
        ({ s with forwarded := s.forwarded.eraseIdx i }.engineFailed f)
  | lost {i : ℕ} {clock : ℕ → ℕ} {f : Forwarded} (hget : s.forwarded[i]? = some f) :
      Change cfg markets s (.place i clock .lost)
        (({ s with forwarded := s.forwarded.eraseIdx i }.placeOnEngine clock
          f.order).engineFailed f)
  | trailed {id : OrderId} {lastPrice : ℚ} {nowMs : ℕ} (rowId : OrderId) (best : ℚ) :
      Change cfg markets s (.trigger id lastPrice nowMs)
        (s.updateOrder rowId fun r => { r with trailingBestPrice := some best })
  | opened {id : OrderId} {lastPrice : ℚ} {nowMs : ℕ} {r : OrderRow} {forwarded : List Forwarded}
      (hr : r ∈ s.orders) (hpending : r.status = .pendingTrigger)
      (hforwarded : forwarded = s.forwarded ∨ 0 < r.remaining ∧
        forwarded = s.forwarded ++ [⟨r.rustOrder nowMs, some r.kind⟩]) :
      Change cfg markets s (.trigger id lastPrice nowMs)
        { s.updateOrder r.id fun r => { r with status := .open, kind := r.kind.triggered } with
          forwarded := forwarded }
  | read {userId : UserId} {id : OrderId} {r : OrderRow} (hr : r ∈ s.orders) :
      Change cfg markets s (.readCancel userId id)
        { s with cancelling := s.cancelling ++ [⟨r, false⟩] }
  | told {i : ℕ} {r : OrderRow} (hget : s.cancelling[i]? = some ⟨r, false⟩) :
      Change cfg markets s (.cancelOnEngine i)
        { s with
          engine := if r.cancelsOnEngine then s.engine.cancelOrder r.id else s.engine
          cancelling := s.cancelling.set i ⟨r, true⟩ }
  | cancelled {i : ℕ} {r : OrderRow} (hget : s.cancelling[i]? = some ⟨r, true⟩) :
      Change cfg markets s (.commitCancel i)
        ({ s with cancelling := s.cancelling.eraseIdx i }.updateOrder r.id fun r =>
          { r with status := .cancelled })
  | settled {i : ℕ} {ev : MatchEvent} {m : SpotMarket} (hget : s.unsettled[i]? = some ev)
      (hmarket : markets ev.market = some m) :
      Change cfg markets s (.settle i)
        (({ s with unsettled := s.unsettled.eraseIdx i }.updateOrder ev.takerOrderId
          (·.addFilled (roundDown m.qtyPrecision ev.quantity))).updateOrder ev.makerOrderId
          (·.addFilled (roundDown m.qtyPrecision ev.quantity)))

section Steps

variable (cfg : RouteConfig) (markets : Market → Option SpotMarket) (s : SpotState)

theorem change_of_trigger (id : OrderId) (lastPrice : ℚ) (nowMs : ℕ) :
    Change cfg markets s (.trigger id lastPrice nowMs) (s.trigger markets id lastPrice nowMs) := by
  rw [trigger]
  split
  case h_1 => exact .same
  case h_2 r hfind =>
    have hr := mem_of_find?_eq_some hfind
    have hpending : r.status = .pendingTrigger := by
      have hfound := find?_some hfind
      simp only [Bool.and_eq_true, beq_iff_eq] at hfound
      exact hfound.2
    by_cases hprice : lastPrice ≤ 0
    · rw [if_pos hprice]
      exact .same
    · rw [if_neg hprice]
      split
      · exact .same
      · exact .trailed r.id _
      · rw [openStop]
        split_ifs with hsend
        · exact .opened hr hpending (.inr ⟨hsend.2, rfl⟩)
        · exact .opened hr hpending (.inl rfl)

theorem change_of_step (act : SpotAction) : Change cfg markets s act (s.step cfg markets act) := by
  cases act with
  | check userId body =>
    simp only [step, check]
    split
    case h_1 c hcheck => exact .checked hcheck
    case h_2 => exact .same
  | commit i id nowMs =>
    simp only [step, commit]
    split
    case h_1 => exact .same
    case h_2 c hget =>
      by_cases hid : id ∈ s.orders.map OrderRow.id
      · rw [if_pos hid]
        exact .same
      · rw [if_neg hid]
        split
        · exact .killed
        · exact .stored hget hid
  | place i clock answer =>
    simp only [step, place]
    split
    case h_1 => exact .same
    case h_2 f hget =>
      cases answer with
      | ok => exact .placed hget
      | refused => exact .refused hget
      | lost => exact .lost hget
  | trigger id lastPrice nowMs => exact s.change_of_trigger cfg markets id lastPrice nowMs
  | readCancel userId id =>
    simp only [step, readCancel]
    split
    case h_1 => exact .same
    case h_2 r hfind =>
      split
      · exact .read (mem_of_find?_eq_some hfind)
      · exact .same
  | cancelOnEngine i =>
    simp only [step, cancelOnEngine]
    split
    case h_1 r hget => exact .told hget
    case h_2 => exact .same
  | commitCancel i =>
    simp only [step, commitCancel]
    split
    case h_1 r hget => exact .cancelled hget
    case h_2 => exact .same
  | settle i =>
    simp only [step, settle]
    split
    case h_1 => exact .same
    case h_2 ev hget =>
      split
      case h_1 => exact .same
      case h_2 m hmarket =>
        split
        · exact .settled hget hmarket
        · exact .same

end Steps

namespace Consistent

variable {c : CheckedOrder} {id : OrderId} {r : OrderRow} {f : Forwarded}

theorem request_unique (h : s.Consistent) {c' : CheckedOrder} (hc : (id, c) ∈ s.accepted)
    (hc' : (id, c') ∈ s.accepted) : c = c' :=
  (Prod.mk.inj (List.inj_on_of_nodup_map h.ids_nodup hc hc' rfl)).2

theorem rows_nodup (h : s.Consistent) : (s.orders.map OrderRow.id).Nodup :=
  h.ids_eq ▸ h.ids_nodup

theorem exists_request (h : s.Consistent) (hr : r ∈ s.orders) :
    ∃ c, (r.id, c) ∈ s.accepted ∧ RowOf s.produced r c := by
  have hid : r.id ∈ s.accepted.map Prod.fst := h.ids_eq ▸ mem_map_of_mem hr
  obtain ⟨⟨id, c⟩, hc, rfl⟩ := mem_map.mp hid
  exact ⟨c, hc, h.row_of r hr c hc⟩

theorem updateOrder (h : s.Consistent) {f : OrderRow → OrderRow} (hf : ∀ r, (f r).id = r.id)
    (hrow : ∀ r ∈ s.orders, r.id = id → ∀ c, (id, c) ∈ s.accepted → RowOf s.produced r c →
      RowOf s.produced (f r) c) : (s.updateOrder id f).Consistent := by
  refine { h with ids_eq := (map_id_updateOrder hf).trans h.ids_eq, row_of := ?_ }
  intro r' hr' c hc
  obtain ⟨r, hr, ⟨hid, rfl⟩ | ⟨-, rfl⟩⟩ := mem_updateOrder hr'
  · rw [hf] at hc
    exact hrow r hr hid c (hid ▸ hc) (h.row_of r hr c hc)
  · exact h.row_of r' hr c hc

theorem init : SpotState.init.Consistent := by
  constructor <;> simp [SpotState.init, Engine.orders, Engine.new, SortedMap.values]

variable (h : s.Consistent)

include h

theorem store (hvalid : c.Valid) (hid : id ∉ s.orders.map OrderRow.id)
    {checked : List CheckedOrder} (hchecked : ∀ c ∈ checked, c.Valid) :
    { s with checked := checked, orders := s.orders ++ [c.row id],
             accepted := s.accepted ++ [(id, c)] }.Consistent := by
  have hnew : id ∉ s.accepted.map Prod.fst := h.ids_eq ▸ hid
  refine
    { h with
      ids_eq := ?_
      ids_nodup := nodup_map_concat h.ids_nodup hnew
      checked_valid := hchecked
      accepted_valid := forall_mem_concat h.accepted_valid hvalid
      row_of := ?_
      forwarded_of := ?_
      placed_accepted := ?_ }
  · rw [map_append, map_append, h.ids_eq]
    rfl
  · intro r hr c' hc'
    rcases mem_append.mp hr with hold | hnewrow
    · apply h.row_of r hold
      rcases mem_append.mp hc' with hc' | hc'
      · exact hc'
      · cases mem_singleton.mp hc'
        exact absurd (mem_map_of_mem hold) hid
    · obtain rfl := mem_singleton.mp hnewrow
      rcases mem_append.mp hc' with hc' | hc'
      · exact absurd (mem_map_of_mem (f := Prod.fst) hc') hnew
      · cases mem_singleton.mp hc'
        refine ⟨rfl, fun hstatus => ?_, fun hne => absurd rfl hne⟩
        by_contra hstop
        simp [CheckedOrder.row, hstop] at hstatus
  · intro f hf
    obtain ⟨c', hc', hof⟩ := h.forwarded_of f hf
    exact ⟨c', mem_append_left _ hc', hof⟩
  · intro z hz
    rw [map_append]
    exact mem_append_left _ (h.placed_accepted z hz)

theorem forward (hc : (f.order.id, c) ∈ s.accepted) (hof : ForwardedOf s.produced f c)
    (hnew : f.restore = none →
      f.order.id ∉ s.placed ∧ ∀ g ∈ s.forwarded, g.order.id ≠ f.order.id) :
    { s with forwarded := s.forwarded ++ [f] }.Consistent := by
  refine
    { h with
      forwarded_of := forall_mem_concat h.forwarded_of ⟨c, hc, hof⟩
      route_new := forall_mem_concat h.route_new fun hroute => (hnew hroute).1
      route_nodup := ?_ }
  rw [filter_append]
  by_cases hroute : f.restore = none
  · rw [filter_cons_of_pos (by simp [hroute]), filter_nil]
    refine nodup_map_concat h.route_nodup fun hmem => ?_
    obtain ⟨g, hg, hid⟩ := mem_map.mp hmem
    exact (hnew hroute).2 g (mem_of_mem_filter hg) hid
  · rw [filter_cons_of_neg (by simpa [Option.isNone_iff_eq_none] using hroute)]
    simpa using h.route_nodup

theorem stored {i : ℕ} (hget : s.checked[i]? = some c) (hid : id ∉ s.orders.map OrderRow.id)
    (nowMs : ℕ) :
    { s with
      checked := s.checked.eraseIdx i
      orders := s.orders ++ [c.row id]
      forwarded := if c.kind.isStop then s.forwarded
        else s.forwarded ++ [(⟨c.rustOrder id nowMs, none⟩ : Forwarded)]
      accepted := s.accepted ++ [(id, c)] }.Consistent := by
  have hvalid : c.Valid := h.checked_valid c (mem_of_getElem? hget)
  have hchecked : ∀ c ∈ s.checked.eraseIdx i, c.Valid := fun c hc =>
    h.checked_valid c (List.eraseIdx_subset hc)
  have hstored := h.store hvalid hid hchecked
  split_ifs with hstop
  · exact hstored
  · apply hstored.forward (f := ⟨c.rustOrder id nowMs, none⟩) (c := c)
    · exact mem_append_right _ (mem_singleton_self _)
    · exact ⟨hvalid.qty_nonneg, fun _ => ⟨by simpa using hstop, nowMs, rfl⟩,
        fun hne => absurd rfl hne, .inl rfl⟩
    · intro _
      refine ⟨fun hplaced => ?_, fun g hg heq => ?_⟩
      · exact hid (h.ids_eq ▸ h.placed_accepted id hplaced)
      · obtain ⟨c', hc', -⟩ := h.forwarded_of g hg
        rw [heq] at hc'
        exact hid (h.ids_eq ▸ mem_map_of_mem (f := Prod.fst) hc')

theorem erase (i : ℕ) : { s with forwarded := s.forwarded.eraseIdx i }.Consistent := by
  refine { h with forwarded_of := ?_, route_new := ?_, route_nodup := ?_ }
  · exact fun f hf => h.forwarded_of f (List.eraseIdx_subset hf)
  · exact fun f hf => h.route_new f (List.eraseIdx_subset hf)
  · exact h.route_nodup.sublist (((List.eraseIdx_sublist _ i).filter _).map _)

theorem ne_of_mem_eraseIdx {i : ℕ} {g : Forwarded} (hget : s.forwarded[i]? = some f)
    (hg : g ∈ s.forwarded.eraseIdx i) (hroute : g.restore = none) : g.order.id ≠ f.order.id := by
  intro heq
  obtain ⟨c, hc, hof⟩ := h.forwarded_of f (mem_of_getElem? hget)
  obtain ⟨c', hc', hof'⟩ := h.forwarded_of g (List.eraseIdx_subset hg)
  rw [heq] at hc'
  obtain rfl := h.request_unique hc hc'
  have hkind := (hof'.route hroute).1
  have hfroute : f.restore = none := by
    by_contra hne
    rw [(hof.stop hne).1] at hkind
    cases hkind
  have hperm := ((cons_eraseIdx_perm hget).filter fun f => f.restore.isNone).map
    fun f => f.order.id
  rw [filter_cons_of_pos (by simp [hfroute]), map_cons] at hperm
  have hnot := (nodup_cons.mp (hperm.nodup_iff.mpr h.route_nodup)).1
  apply hnot
  rw [← heq]
  exact mem_map_of_mem (f := fun f : Forwarded => f.order.id)
    (mem_filter.mpr ⟨hg, by simp [hroute]⟩)

theorem fresh_of_route (hnew : f.order.id ∉ s.placed) :
    ∀ x ∈ s.engine.orders, x.id ≠ f.order.id := by
  intro x hx heq
  exact hnew (heq ▸ h.resting_placed x hx)

theorem pos_of_mem_placeOrder (hof : ForwardedOf s.produced f c)
    (hnew : f.restore = none → f.order.id ∉ s.placed) (clock : ℕ → ℕ) :
    ∀ x ∈ (s.engine.placeOrder clock f.order).1.orders, 0 < x.remaining := by
  intro x hx
  by_cases hroute : f.restore = none
  · rcases Engine.rest_of_mem_orders_placeOrder (h.fresh_of_route (hnew hroute)) hx with
      ⟨y, hy, hxy⟩ | ⟨rfl, hpos⟩
    · exact hxy.2 (h.resting_pos y hy)
    · exact hpos
  · obtain ⟨y, rfl | hy, hxy⟩ := Engine.exists_of_mem_orders_placeOrder hx
    · exact hxy.2 (hof.stop hroute).2
    · exact hxy.2 (h.resting_pos y hy)

theorem placeOnEngine (hc : (f.order.id, c) ∈ s.accepted) (hof : ForwardedOf s.produced f c)
    (hnew : f.restore = none → f.order.id ∉ s.placed) (hother : ∀ g ∈ s.forwarded, g.restore = none
    → g.order.id ≠ f.order.id) (clock : ℕ → ℕ) : (s.placeOnEngine clock f.order).Consistent := by
  have hproduced : s.produced ⊆ (s.placeOnEngine clock f.order).produced :=
    subset_append_left _ _
  refine
    { h with
      row_of := fun r hr c hc => (h.row_of r hr c hc).mono hproduced
      forwarded_of := ?_
      route_new := ?_
      resting_placed := ?_
      resting_pos := h.pos_of_mem_placeOrder hof hnew clock
      produced_placed := forall_mem_append.mpr ⟨?_, ?_⟩
      produced_legs := forall_mem_append.mpr
        ⟨h.produced_legs, fun ev hev => (Engine.taker_of_mem_placeOrder hev).2⟩
      placed_accepted := forall_mem_concat h.placed_accepted
        (mem_map_of_mem (f := Prod.fst) hc)
      unsettled_produced := append_subset.mpr
        ⟨fun _ hev => hproduced (h.unsettled_produced hev), subset_append_right _ _⟩ }
  · intro g hg
    obtain ⟨c', hc', hof'⟩ := h.forwarded_of g hg
    exact ⟨c', hc', hof'.mono hproduced⟩
  · intro g hg hroute hmem
    rcases mem_append.mp hmem with hmem | hmem
    · exact h.route_new g hg hroute hmem
    · exact hother g hg hroute (mem_singleton.mp hmem)
  · intro x hx
    obtain ⟨y, rfl | hy, hxy⟩ := Engine.exists_of_mem_orders_placeOrder hx
    · exact mem_append_right _ (mem_singleton.mpr hxy.id_eq)
    · rw [hxy.id_eq]
      exact mem_append_left _ (h.resting_placed y hy)
  · exact fun ev hev z hz => mem_append_left _ (h.produced_placed ev hev z hz)
  · intro ev hev z hz
    rcases Engine.names_of_mem_placeOrder hev hz with rfl | ⟨y, hy, rfl⟩
    · exact mem_append_right _ (mem_singleton_self _)
    · exact mem_append_left _ (h.resting_placed y hy)

theorem engineFailed (hc : (f.order.id, c) ∈ s.accepted) (hof : ForwardedOf s.produced f c) :
    (s.engineFailed f).Consistent := by
  obtain ⟨g, hg, heq⟩ := s.engineFailed_eq f
  rw [heq]
  refine h.updateOrder (fun r => (hg r).id_eq) fun r _ _ c' hc' hrow => ?_
  have hback := hg r
  generalize g r = r' at hback ⊢
  cases hback with
  | kept => exact hrow
  | cancelled => exact ⟨hrow.quantity, fun hstatus => (by cases hstatus), hrow.filled⟩
  | waits hstop _ =>
    obtain rfl := h.request_unique hc hc'
    exact ⟨hrow.quantity, fun _ => (hof.stop (by simp [hstop])).1, hrow.filled⟩

theorem opened (hr : r ∈ s.orders) (hpending : r.status = .pendingTrigger) {nowMs : ℕ}
    {forwarded : List Forwarded}
    (hforwarded : forwarded = s.forwarded ∨ 0 < r.remaining ∧
      forwarded = s.forwarded ++ [⟨r.rustOrder nowMs, some r.kind⟩]) :
    { s.updateOrder r.id fun r => { r with status := .open, kind := r.kind.triggered } with
      forwarded := forwarded }.Consistent := by
  obtain ⟨c, hc, hrow⟩ := h.exists_request hr
  have hopened : (s.updateOrder r.id fun r =>
      { r with status := .open, kind := r.kind.triggered }).Consistent := by
    apply h.updateOrder
    · exact fun r => rfl
    · intro r' _ _ c' _ hrow'
      exact ⟨hrow'.quantity, fun hstatus => (by cases hstatus), hrow'.filled⟩
  rcases hforwarded with rfl | ⟨hpos, rfl⟩
  · exact hopened
  · apply hopened.forward (f := ⟨r.rustOrder nowMs, some r.kind⟩) (c := c)
    · exact hc
    · refine ⟨hpos.le, fun hne => (by cases hne), fun _ => ⟨hrow.stop hpending, hpos⟩, ?_⟩
      by_cases hfilled : r.filledQuantity = 0
      · left
        change r.remaining = c.qtyRounded
        rw [OrderRow.remaining, hfilled, sub_zero, hrow.quantity]
      · exact .inr (hrow.filled hfilled)
    · exact fun hne => by cases hne

theorem addFilled {ev : MatchEvent} (hev : ev ∈ s.produced) (hid : ev.Names id) (fillQty : ℚ) :
    (s.updateOrder id (·.addFilled fillQty)).Consistent := by
  apply h.updateOrder
  · exact fun r => rfl
  · intro r _ hr c' _ hrow
    refine ⟨hrow.quantity, fun hstatus => ?_, fun _ => ⟨ev, hev, ?_⟩⟩
    · simp only [OrderRow.addFilled] at hstatus
      split_ifs at hstatus
    · rw [← hr] at hid
      exact hid

theorem eraseUnsettled (i : ℕ) : { s with unsettled := s.unsettled.eraseIdx i }.Consistent :=
  { h with
    unsettled_produced := fun _ hev => h.unsettled_produced (List.eraseIdx_subset hev) }

omit h

theorem mem_of_mem_told {e : Engine} {x : Order}
    (hx : x ∈ (if r.cancelsOnEngine then e.cancelOrder r.id else e).orders) : x ∈ e.orders := by
  split_ifs at hx
  · rw [Engine.orders_cancelOrder] at hx
    exact mem_of_mem_filter hx
  · exact hx

theorem change {cfg : RouteConfig} {markets : Market → Option SpotMarket} {act : SpotAction}
    (h : s.Consistent) (hchange : Change cfg markets s act s') : s'.Consistent := by
  cases hchange with
  | same => exact h
  | read => exact { h with }
  | checked hcheck =>
    exact { h with
      checked_valid := forall_mem_concat h.checked_valid (checkOrder_valid hcheck) }
  | killed =>
    exact { h with checked_valid := fun c hc => h.checked_valid c (List.eraseIdx_subset hc) }
  | stored hget hnew => exact h.stored hget hnew _
  | @placed i clock f hget =>
    have hmem : f ∈ s.forwarded := mem_of_getElem? hget
    obtain ⟨c, hc, hof⟩ := h.forwarded_of f hmem
    exact (h.erase i).placeOnEngine hc hof (h.route_new f hmem)
      (fun g hg hroute => h.ne_of_mem_eraseIdx hget hg hroute) clock
  | @refused i _ f hget =>
    obtain ⟨c, hc, hof⟩ := h.forwarded_of f (mem_of_getElem? hget)
    exact (h.erase i).engineFailed hc hof
  | @lost i clock f hget =>
    have hmem : f ∈ s.forwarded := mem_of_getElem? hget
    obtain ⟨c, hc, hof⟩ := h.forwarded_of f hmem
    have hplaced := (h.erase i).placeOnEngine hc hof (h.route_new f hmem)
      (fun g hg hroute => h.ne_of_mem_eraseIdx hget hg hroute) clock
    exact hplaced.engineFailed hc (hof.mono (subset_append_left _ _))
  | trailed =>
    exact h.updateOrder (fun r => rfl) fun r' _ _ c' _ hrow' =>
      ⟨hrow'.quantity, hrow'.stop, hrow'.filled⟩
  | opened hr hpending hforwarded => exact h.opened hr hpending hforwarded
  | told =>
    exact { h with
      resting_placed := fun x hx => h.resting_placed x (mem_of_mem_told hx)
      resting_pos := fun x hx => h.resting_pos x (mem_of_mem_told hx) }
  | @cancelled i r _ =>
    have herased : { s with cancelling := s.cancelling.eraseIdx i }.Consistent := { h with }
    exact herased.updateOrder (fun r => rfl) fun r' _ _ c' _ hrow =>
      ⟨hrow.quantity, fun hstatus => (by cases hstatus), hrow.filled⟩
  | @settled i ev m hget _ =>
    have hev : ev ∈ s.produced := h.unsettled_produced (mem_of_getElem? hget)
    obtain ⟨htaker, hmaker⟩ := h.produced_legs ev hev
    exact ((h.eraseUnsettled i).addFilled hev htaker _).addFilled hev hmaker _

theorem step (h : s.Consistent) (cfg : RouteConfig) (markets : Market → Option SpotMarket)
    (act : SpotAction) : (s.step cfg markets act).Consistent :=
  h.change (s.change_of_step cfg markets act)

end Consistent

/-- What a step does to the engine, the requests, the events and the placements: nothing,
or it stores a request, places an order, or cancels one on the engine. -/
inductive TradeStep (s : SpotState) (act : SpotAction) (s' : SpotState) : Prop
  | same (engine : s'.engine = s.engine) (accepted : s'.accepted = s.accepted)
      (produced : s'.produced = s.produced) (placed : s'.placed = s.placed)
  | stored (id : OrderId) (c : CheckedOrder) (hnew : id ∉ s.accepted.map Prod.fst)
      (engine : s'.engine = s.engine) (accepted : s'.accepted = s.accepted ++ [(id, c)])
      (produced : s'.produced = s.produced) (placed : s'.placed = s.placed)
  | placed (i : ℕ) (clock : ℕ → ℕ) (answer : EngineAnswer) (f : Forwarded)
      (hact : act = .place i clock answer) (hanswer : answer ≠ .refused)
      (hget : s.forwarded[i]? = some f)
      (engine : s'.engine = (s.engine.placeOrder clock f.order).1)
      (accepted : s'.accepted = s.accepted)
      (produced : s'.produced =
        s.produced ++ (s.engine.placeOrder clock f.order).2.map Prod.snd)
      (placed : s'.placed = s.placed ++ [f.order.id])
  | cancelled (id : OrderId) (engine : s'.engine = s.engine.cancelOrder id)
      (accepted : s'.accepted = s.accepted) (produced : s'.produced = s.produced)
      (placed : s'.placed = s.placed)

theorem Change.tradeStep {cfg : RouteConfig} {markets : Market → Option SpotMarket}
    {act : SpotAction} (h : s.Consistent) (hchange : Change cfg markets s act s') :
    TradeStep s act s' := by
  cases hchange with
  | same | checked | killed | trailed | opened | read | cancelled | settled =>
    exact .same rfl rfl rfl rfl
  | @stored i id nowMs c _ hnew => exact .stored id c (h.ids_eq ▸ hnew) rfl rfl rfl rfl
  | placed hget => exact .placed _ _ _ _ rfl (by decide) hget rfl rfl rfl rfl
  | refused =>
    rw [engineFailed_with]
    exact .same rfl rfl rfl rfl
  | @lost i clock f hget =>
    rw [engineFailed_with]
    exact .placed i clock .lost f rfl (by decide) hget rfl rfl rfl rfl
  | @told i r _ =>
    by_cases hcancel : r.cancelsOnEngine = true
    · exact .cancelled r.id (if_pos hcancel) rfl rfl rfl
    · exact .same (if_neg hcancel) rfl rfl rfl

theorem tradeStep (h : s.Consistent) (cfg : RouteConfig) (markets : Market → Option SpotMarket)
    (act : SpotAction) : TradeStep s act (s.step cfg markets act) :=
  (s.change_of_step cfg markets act).tradeStep h

end SpotState

end MetherCEX
