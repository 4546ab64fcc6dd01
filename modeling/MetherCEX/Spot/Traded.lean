import MetherCEX.Engine.Trades
import MetherCEX.Spot.EngineCall

/-!
# Orders that are traded once

As long as no call of the engine fails, every order is placed at most once: an order that waits
for its trigger has not been sent, and nothing puts an order back to wait.
-/

namespace MetherCEX

open Decimal Table List

def CheckedOrder.terms (c : CheckedOrder) : Side × Option ℚ × Option ℚ × ℚ :=
  (c.side, c.price, c.stopPrice, c.qtyRounded)

def SpotAction.Succeeds : SpotAction → Prop
  | .place _ _ answer => answer = .ok
  | _ => True

namespace SpotState

def sentIds (s : SpotState) : List OrderId := (s.forwarded.map fun f => f.order.id) ++ s.placed

structure TradeOf (accepted : List (OrderId × CheckedOrder)) (ev : MatchEvent) : Prop where
  pos : 0 < ev.quantity
  two : ev.takerOrderId ≠ ev.makerOrderId
  taker_side : ∀ c, (ev.takerOrderId, c) ∈ accepted → c.side = ev.takerSide
  maker_side : ∀ c, (ev.makerOrderId, c) ∈ accepted → c.side = ev.takerSide.opposite

/-- Every order was placed at most once and traded within its quantity. -/
structure Traded (s : SpotState) : Prop where
  consistent : s.Consistent
  wellFormed : s.engine.WellFormed
  once : s.sentIds.Nodup
  waiting : ∀ r ∈ s.orders, r.status = .pendingTrigger → r.id ∉ s.sentIds
  row_terms : ∀ r ∈ s.orders, ∀ c, (r.id, c) ∈ s.accepted → r.terms = c.terms
  read_stored : ∀ x ∈ s.cancelling, x.row.id ∈ s.orders.map OrderRow.id
  read_terms : ∀ x ∈ s.cancelling, ∀ c, (x.row.id, c) ∈ s.accepted → x.row.terms = c.terms
  sent_side : ∀ f ∈ s.forwarded, ∀ c, (f.order.id, c) ∈ s.accepted → f.order.side = c.side
  resting_side : ∀ x ∈ s.engine.orders, ∀ c, (x.id, c) ∈ s.accepted → x.side = c.side
  within : ∀ id c, (id, c) ∈ s.accepted →
    restingQty id s.engine.orders + filledQty id s.produced ≤ c.qtyRounded
  trades : ∀ ev ∈ s.produced, TradeOf s.accepted ev

variable {s s' : SpotState}

namespace Traded

theorem init : SpotState.init.Traded := by
  refine ⟨Consistent.init, Engine.WellFormed.new, ?_, ?_, ?_, ?_, ?_, ?_, ?_, ?_, ?_⟩ <;>
    simp [SpotState.init, sentIds, Engine.orders, Engine.new, SortedMap.values]

variable (h : s.Traded)

include h

variable {id : OrderId} {nowMs i : ℕ} {f : Forwarded} {r : OrderRow} {act : SpotAction}

theorem untouched (hid : id ∉ s.placed) :
    restingQty id s.engine.orders = 0 ∧ filledQty id s.produced = 0 := by
  constructor
  · apply restingQty_eq_zero
    intro x hx heq
    exact hid (heq ▸ h.consistent.resting_placed x hx)
  · apply filledQty_eq_zero
    intro ev hev hnames
    exact hid (h.consistent.produced_placed ev hev id hnames)

theorem updateOrder {f : OrderRow → OrderRow} (hcons : (s.updateOrder id f).Consistent)
    (hf : ∀ r, (f r).Follows r) : (s.updateOrder id f).Traded := by
  have hfollow : RowsFollow s (s.updateOrder id f) := .updateOrder s hf
  refine { h with consistent := hcons, waiting := ?_, row_terms := ?_, read_stored := ?_ }
  · intro r' hr' hpending
    obtain ⟨r, hr, hrow⟩ := hfollow.rows r' hr'
    rw [hrow.id_eq]
    exact h.waiting r hr ((hrow.status (.inr hpending)).symm.trans hpending)
  · intro r' hr' c hc
    obtain ⟨r, hr, hrow⟩ := hfollow.rows r' hr'
    rw [hrow.terms_eq]
    exact h.row_terms r hr c (hrow.id_eq ▸ hc)
  · rw [hfollow.ids]
    exact h.read_stored

theorem store {c : CheckedOrder} (hvalid : c.Valid) (hid : id ∉ s.orders.map OrderRow.id)
    (hcons : s'.Consistent) (horders : s'.orders = s.orders ++ [c.row id])
    (haccepted : s'.accepted = s.accepted ++ [(id, c)]) (hforwarded : s'.forwarded =
    if c.kind.isStop then s.forwarded else s.forwarded ++ [⟨c.rustOrder id nowMs, none⟩])
    (hengine : s'.engine = s.engine) (hproduced : s'.produced = s.produced)
    (hplaced : s'.placed = s.placed) (hcancelling : s'.cancelling = s.cancelling) : s'.Traded := by
  have hnew : id ∉ s.accepted.map Prod.fst := h.consistent.ids_eq ▸ hid
  have hnotplaced : id ∉ s.placed := fun hmem => hnew (h.consistent.placed_accepted id hmem)
  have hnotsent : id ∉ s.sentIds := by
    intro hmem
    rcases mem_append.mp hmem with hmem | hmem
    · obtain ⟨f, hf, rfl⟩ := mem_map.mp hmem
      obtain ⟨c', hc', -⟩ := h.consistent.forwarded_of f hf
      exact hnew (mem_map_of_mem (f := Prod.fst) hc')
    · exact hnotplaced hmem
  -- the requests other than the new one are known under other ids
  have hold : ∀ z c', (z, c') ∈ s'.accepted → (z, c') ∈ s.accepted ∨ z = id ∧ c' = c := by
    intro z c' hc'
    rw [haccepted] at hc'
    rcases mem_append.mp hc' with hc' | hc'
    · exact .inl hc'
    · exact .inr (Prod.mk.inj (mem_singleton.mp hc'))
  have hsent : s'.sentIds = s.sentIds ∨
      c.kind.isStop = false ∧ s'.sentIds.Perm (id :: s.sentIds) := by
    rw [sentIds, hforwarded, hplaced]
    split_ifs with hstop
    · exact .inl rfl
    · refine .inr ⟨by simpa using hstop, ?_⟩
      rw [map_append, map_singleton, append_assoc, singleton_append]
      exact perm_middle
  have hplacednew : ∀ z ∈ s.placed, z ≠ id := fun z hz heq => hnotplaced (heq ▸ hz)
  refine ⟨hcons, hengine ▸ h.wellFormed, ?_, ?_, ?_, ?_, ?_, ?_, ?_, ?_, ?_⟩
  · rcases hsent with hsent | ⟨-, hsent⟩
    · exact hsent ▸ h.once
    · exact hsent.nodup_iff.mpr (nodup_cons.mpr ⟨hnotsent, h.once⟩)
  · rw [horders]
    intro r hr hpending
    rcases mem_concat hr with hr | rfl
    · have hne : r.id ≠ id := fun heq => hid (heq ▸ mem_map_of_mem hr)
      rcases hsent with hsent | ⟨-, hsent⟩
      · exact hsent ▸ h.waiting r hr hpending
      · rw [hsent.mem_iff, mem_cons]
        exact fun hmem => hmem.elim hne (h.waiting r hr hpending)
    · rcases hsent with hsent | ⟨hstop, -⟩
      · exact hsent ▸ hnotsent
      · simp [CheckedOrder.row, hstop] at hpending
  · rw [horders]
    intro r hr c' hc'
    rcases mem_concat hr with hr | rfl
    · rcases hold _ _ hc' with hc' | ⟨heq, -⟩
      · exact h.row_terms r hr c' hc'
      · exact absurd (heq ▸ mem_map_of_mem hr) hid
    · rcases hold _ _ hc' with hc' | ⟨-, rfl⟩
      · exact absurd (mem_map_of_mem (f := Prod.fst) hc') hnew
      · rfl
  · rw [hcancelling, horders, map_append]
    exact fun x hx => mem_append_left _ (h.read_stored x hx)
  · rw [hcancelling]
    intro x hx c' hc'
    rcases hold _ _ hc' with hc' | ⟨heq, -⟩
    · exact h.read_terms x hx c' hc'
    · exact absurd (heq ▸ h.read_stored x hx) hid
  · intro f hf c' hc'
    rw [hforwarded] at hf
    have hcase : f ∈ s.forwarded ∨ f = ⟨c.rustOrder id nowMs, none⟩ := by
      split_ifs at hf
      · exact .inl hf
      · exact (mem_append.mp hf).imp_right mem_singleton.mp
    rcases hcase with hf | rfl
    · rcases hold _ _ hc' with hc' | ⟨heq, -⟩
      · exact h.sent_side f hf c' hc'
      · obtain ⟨c'', hc'', -⟩ := h.consistent.forwarded_of f hf
        exact absurd (heq ▸ mem_map_of_mem (f := Prod.fst) hc'') hnew
    · rcases hold _ _ hc' with hc' | ⟨-, rfl⟩
      · exact absurd (mem_map_of_mem (f := Prod.fst) hc') hnew
      · rfl
  · rw [hengine]
    intro x hx c' hc'
    rcases hold _ _ hc' with hc' | ⟨heq, -⟩
    · exact h.resting_side x hx c' hc'
    · exact absurd heq (hplacednew _ (h.consistent.resting_placed x hx))
  · intro z c' hc'
    rw [hengine, hproduced]
    rcases hold _ _ hc' with hc' | ⟨rfl, rfl⟩
    · exact h.within z c' hc'
    · obtain ⟨hresting, hfilled⟩ := h.untouched hnotplaced
      rw [hresting, hfilled, add_zero]
      exact hvalid.qty_nonneg
  · rw [hproduced]
    intro ev hev
    have htrade := h.trades ev hev
    have hlegs := h.consistent.produced_legs ev hev
    have hplacedOf := h.consistent.produced_placed ev hev
    refine ⟨htrade.pos, htrade.two, ?_, ?_⟩
    · intro c' hc'
      rcases hold _ _ hc' with hc' | ⟨heq, -⟩
      · exact htrade.taker_side c' hc'
      · exact absurd heq (hplacednew _ (hplacedOf _ hlegs.1))
    · intro c' hc'
      rcases hold _ _ hc' with hc' | ⟨heq, -⟩
      · exact htrade.maker_side c' hc'
      · exact absurd heq (hplacednew _ (hplacedOf _ hlegs.2))

theorem sent (hf : f ∈ s.forwarded) : f.order.id ∉ s.placed ∧ 0 ≤ f.order.remaining ∧
    ∀ c, (f.order.id, c) ∈ s.accepted → f.order.remaining = c.qtyRounded := by
  have hnew : f.order.id ∉ s.placed := by
    intro hmem
    exact (nodup_append.mp h.once).2.2 _ (mem_map.mpr ⟨f, hf, rfl⟩) _ hmem rfl
  obtain ⟨c, hc, hof⟩ := h.consistent.forwarded_of f hf
  refine ⟨hnew, hof.nonneg, fun c' hc' => ?_⟩
  obtain rfl := h.consistent.request_unique hc hc'
  rcases hof.whole with hwhole | ⟨ev, hev, hnames⟩
  · exact hwhole
  · exact absurd (h.consistent.produced_placed ev hev _ hnames) hnew

theorem placed {clock : ℕ → ℕ} (hget : s.forwarded[i]? = some f)
    (hcons : ({ s with forwarded := s.forwarded.eraseIdx i }.placeOnEngine clock
      f.order).Consistent) :
    ({ s with forwarded := s.forwarded.eraseIdx i }.placeOnEngine clock f.order).Traded := by
  have hf : f ∈ s.forwarded := mem_of_getElem? hget
  obtain ⟨hnew, hnonneg, hwhole⟩ := h.sent hf
  have hfresh : ∀ x ∈ s.engine.orders, x.id ≠ f.order.id :=
    fun x hx heq => hnew (heq ▸ h.consistent.resting_placed x hx)
  obtain ⟨hresting, hfilled⟩ := h.untouched hnew
  have hperm : ((s.forwarded.eraseIdx i).map (fun f => f.order.id) ++
      (s.placed ++ [f.order.id])).Perm s.sentIds := by
    rw [← append_assoc]
    refine (perm_append_singleton _ _).trans ?_
    exact ((cons_eraseIdx_perm hget).map fun f : Forwarded => f.order.id).append_right _
  refine ⟨hcons, h.wellFormed.placeOrder hfresh clock, hperm.nodup_iff.mpr h.once, ?_,
    h.row_terms, h.read_stored, h.read_terms, ?_, ?_, ?_, ?_⟩
  · intro r hr hpending hmem
    exact h.waiting r hr hpending (hperm.mem_iff.mp hmem)
  · exact fun g hg => h.sent_side g (List.eraseIdx_subset hg)
  · intro x hx c hc
    obtain ⟨y, hy, hxy⟩ := Engine.exists_of_mem_orders_placeOrder hx
    have hside : x.side = y.side := by
      rw [hxy.1]
      rfl
    rw [hxy.id_eq] at hc
    rw [hside]
    rcases hy with rfl | hy
    · exact h.sent_side f hf c hc
    · exact h.resting_side y hy c hc
  · intro z c hc
    have hconserved : restingQty z (s.engine.placeOrder clock f.order).1.orders +
        filledQty z ((s.engine.placeOrder clock f.order).2.map Prod.snd) = _ :=
      Engine.conserved_placeOrder h.wellFormed hfresh hnonneg z
    have hbefore := h.within z c hc
    change restingQty z (s.engine.placeOrder clock f.order).1.orders +
      filledQty z (s.produced ++ (s.engine.placeOrder clock f.order).2.map Prod.snd) ≤ _
    rw [filledQty_append]
    by_cases hz : f.order.id = z
    · rw [if_pos hz] at hconserved
      subst hz
      rw [hresting] at hconserved
      rw [hfilled, ← hwhole c hc]
      linarith
    · rw [if_neg hz] at hconserved
      linarith
  · intro ev hev
    rcases mem_append.mp hev with hev | hev
    · exact h.trades ev hev
    · obtain ⟨m, hm, hmside, -, q, t, hq, rfl⟩ :=
        Engine.exists_eventOf h.wellFormed hfresh hnonneg hev
      obtain ⟨htaker, hmaker, hside, -⟩ :=
        OrderBook.eventOf_legs f.order.market f.order m (execPrice m f.order) q t
      refine ⟨?_, ?_, ?_, ?_⟩
      · rw [OrderBook.eventOf_quantity]
        exact hq
      · rw [htaker, hmaker]
        exact (hfresh m hm).symm
      · intro c hc
        rw [htaker] at hc
        rw [hside]
        exact (h.sent_side f hf c hc).symm
      · intro c hc
        rw [hmaker] at hc
        rw [hside, ← hmside]
        exact (h.resting_side m hm c hc).symm

theorem opened (hr : r ∈ s.orders) (hpending : r.status = .pendingTrigger)
    {forwarded : List Forwarded}
    (hforwarded : forwarded = s.forwarded ∨ 0 < r.remaining ∧
      forwarded = s.forwarded ++ [⟨r.rustOrder nowMs, some r.kind⟩])
    (hcons : { s.updateOrder r.id fun r =>
      { r with status := .open, kind := r.kind.triggered } with
      forwarded := forwarded }.Consistent) :
    { s.updateOrder r.id fun r => { r with status := .open, kind := r.kind.triggered } with
      forwarded := forwarded }.Traded := by
  have hnotsent := h.waiting r hr hpending
  have hids := map_id_open s r.id
  have hpendingOf : ∀ r' ∈ (s.updateOrder r.id fun r =>
      { r with status := .open, kind := r.kind.triggered }).orders,
      r'.status = .pendingTrigger → r'.id ≠ r.id ∧ r'.id ∉ s.sentIds := by
    intro r' hr' hpending'
    obtain ⟨r₀, hr₀, ⟨-, rfl⟩ | ⟨hne, rfl⟩⟩ := mem_updateOrder hr'
    · simp at hpending'
    · exact ⟨hne, h.waiting r' hr₀ hpending'⟩
  have hterms : ∀ r' ∈ (s.updateOrder r.id fun r =>
      { r with status := .open, kind := r.kind.triggered }).orders,
      ∀ c, (r'.id, c) ∈ s.accepted → r'.terms = c.terms := by
    intro r' hr' c hc
    obtain ⟨r₀, hr₀, ⟨-, rfl⟩ | ⟨-, rfl⟩⟩ := mem_updateOrder hr'
    · exact h.row_terms r₀ hr₀ c hc
    · exact h.row_terms r' hr₀ c hc
  rcases hforwarded with rfl | ⟨-, rfl⟩
  · exact { h with
      consistent := hcons
      waiting := fun r' hr' hpending' => (hpendingOf r' hr' hpending').2
      row_terms := hterms
      read_stored := hids ▸ h.read_stored }
  · have hsent : List.Perm
        ((s.forwarded ++ ([⟨r.rustOrder nowMs, some r.kind⟩] : List Forwarded)).map
          (fun f => f.order.id) ++ s.placed) (r.id :: s.sentIds) := by
      rw [map_append, map_singleton, append_assoc, singleton_append]
      exact perm_middle
    refine { h with
      consistent := hcons
      once := hsent.nodup_iff.mpr (nodup_cons.mpr ⟨hnotsent, h.once⟩)
      waiting := ?_
      row_terms := hterms
      read_stored := hids ▸ h.read_stored
      sent_side := forall_mem_concat h.sent_side fun c hc =>
        congrArg Prod.fst (h.row_terms r hr c hc) }
    intro r' hr' hpending' hmem
    obtain ⟨hne, hnot⟩ := hpendingOf r' hr' hpending'
    exact (mem_cons.mp (hsent.mem_iff.mp hmem)).elim hne hnot

theorem told (hget : s.cancelling[i]? = some ⟨r, false⟩) {engine : Engine}
    (hengine : engine = if r.cancelsOnEngine then s.engine.cancelOrder r.id else s.engine)
    (hcons : { s with engine := engine, cancelling := s.cancelling.set i ⟨r, true⟩ }.Consistent) :
    { s with engine := engine, cancelling := s.cancelling.set i ⟨r, true⟩ }.Traded := by
  have hstored : r.id ∈ s.orders.map OrderRow.id := h.read_stored _ (mem_of_getElem? hget)
  have hterms : ∀ c, (r.id, c) ∈ s.accepted → r.terms = c.terms :=
    h.read_terms _ (mem_of_getElem? hget)
  refine { h with
    consistent := hcons
    wellFormed := ?_
    read_stored := forall_mem_set h.read_stored hstored
    read_terms := forall_mem_set h.read_terms hterms
    resting_side := fun x hx => h.resting_side x (Consistent.mem_of_mem_told (hengine ▸ hx))
    within := ?_ }
  · rw [hengine]
    split_ifs
    · exact h.wellFormed.cancelOrder r.id
    · exact h.wellFormed
  · intro id c hc
    refine le_trans (add_le_add_left ?_ _) (h.within id c hc)
    rw [hengine]
    split_ifs
    · rw [Engine.orders_cancelOrder]
      exact restingQty_filter_le h.consistent.resting_pos _ id
    · exact le_rfl

theorem eraseCancelling (i : ℕ) : { s with cancelling := s.cancelling.eraseIdx i }.Traded :=
  { h with
    consistent := { h.consistent with }
    read_stored := fun x hx => h.read_stored x (List.eraseIdx_subset hx)
    read_terms := fun x hx => h.read_terms x (List.eraseIdx_subset hx) }

theorem settled {ev : MatchEvent} (hget : s.unsettled[i]? = some ev) (fillQty : ℚ) :
    (({ s with unsettled := s.unsettled.eraseIdx i }.updateOrder ev.takerOrderId
      (·.addFilled fillQty)).updateOrder ev.makerOrderId (·.addFilled fillQty)).Traded := by
  have hev : ev ∈ s.produced := h.consistent.unsettled_produced (mem_of_getElem? hget)
  obtain ⟨htaker, hmaker⟩ := h.consistent.produced_legs ev hev
  have herase : { s with unsettled := s.unsettled.eraseIdx i }.Traded :=
    { h with consistent := h.consistent.eraseUnsettled i }
  have htaken := herase.updateOrder (herase.consistent.addFilled hev htaker fillQty)
    fun r => r.addFilled_follows _
  exact htaken.updateOrder (htaken.consistent.addFilled hev hmaker _)
    fun r => r.addFilled_follows _

theorem change {cfg : RouteConfig} {markets : Market → Option SpotMarket}
    (hchange : Change cfg markets s act s') (hact : act.Succeeds) : s'.Traded := by
  have hcons := h.consistent.change hchange
  cases hchange with
  | same => exact h
  | checked | killed => exact { h with consistent := hcons }
  | @stored i id nowMs c hget hnew =>
    have hvalid := h.consistent.checked_valid c (mem_of_getElem? hget)
    exact h.store hvalid hnew hcons rfl rfl rfl rfl rfl rfl rfl
  | placed hget => exact h.placed hget hcons
  | refused | lost => cases hact
  | trailed => exact h.updateOrder hcons fun r => ⟨rfl, rfl, rfl, fun _ => rfl⟩
  | opened hr hpending hforwarded => exact h.opened hr hpending hforwarded hcons
  | read hr =>
    exact { h with
      consistent := hcons
      read_stored := forall_mem_concat h.read_stored (mem_map_of_mem hr)
      read_terms := forall_mem_concat h.read_terms (h.row_terms _ hr) }
  | told hget => exact h.told hget rfl hcons
  | @cancelled i r _ =>
    refine (h.eraseCancelling i).updateOrder hcons fun r => ⟨rfl, rfl, rfl, fun hstatus => ?_⟩
    simp at hstatus
  | settled hget _ => exact h.settled hget _

theorem step (cfg : RouteConfig) (markets : Market → Option SpotMarket) (hact : act.Succeeds) :
    (s.step cfg markets act).Traded :=
  h.change (s.change_of_step cfg markets act) hact

theorem steps (cfg : RouteConfig) (markets : Market → Option SpotMarket) (acts : List SpotAction)
    (hacts : ∀ act ∈ acts, act.Succeeds) : (acts.foldl (SpotState.step cfg markets) s).Traded := by
  induction acts generalizing s with
  | nil => exact h
  | cons act acts ih =>
    rw [forall_mem_cons] at hacts
    exact ih (h.step cfg markets hacts.1) hacts.2

end Traded

end SpotState

end MetherCEX
