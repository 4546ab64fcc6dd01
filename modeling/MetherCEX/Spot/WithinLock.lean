import MetherCEX.Spot.Funds

/-!
# An order stays within its lock

An order should never be debited and given back more than was locked for it.
-/

namespace MetherCEX

open Checks Decimal Table Tally Run List

/-- The numbers of an order are those of its market, and none is negative. -/
structure CheckedOrder.Priced (m : SpotMarket) (c : CheckedOrder) : Prop where
  qty_grid : OnGrid m.qtyPrecision c.qtyRounded
  qty_nonneg : 0 ≤ c.qtyRounded
  price_nonneg : ∀ p ∈ c.price, 0 ≤ p
  stop_nonneg : ∀ p ∈ c.stopPrice, 0 ≤ p
  ask_nonneg : 0 ≤ c.best.bestAsk

theorem lockAmountQuote_nonneg {price qty : ℚ} (hprice : 0 ≤ price) (hqty : 0 ≤ qty)
    (precision : ℕ) : 0 ≤ lockAmountQuote price qty precision :=
  roundDown_nonneg (mul_nonneg (roundDown_nonneg hprice) (roundDown_nonneg hqty))

namespace CheckedOrder.Priced

variable {m : SpotMarket} {c : CheckedOrder}

theorem buyLockPrice_nonneg (h : c.Priced m) : 0 ≤ c.buyLockPrice m := by
  have hbuffer : 0 ≤ 1 + marketOrderSlippageBuffer := by norm_num [marketOrderSlippageBuffer]
  have hstop : 0 ≤ c.stopPrice.getD 0 := by
    cases hs : c.stopPrice with
    | none => exact le_rfl
    | some p => exact h.stop_nonneg p hs
  have hprice : 0 ≤ c.price.getD 0 := by
    cases hp : c.price with
    | none => exact le_rfl
    | some p => exact h.price_nonneg p hp
  unfold buyLockPrice
  split
  · exact roundDown_nonneg (mul_nonneg (roundDown_nonneg h.ask_nonneg) hbuffer)
  · exact hstop
  · dsimp only
    split_ifs with htrail
    · exact htrail.le
    · exact mul_nonneg h.ask_nonneg (by norm_num)
  · exact hprice
  · exact hprice

theorem lockAmount_nonneg (h : c.Priced m) {slippageBps : ℚ} (hbps : 0 ≤ slippageBps) :
    0 ≤ c.lockAmount slippageBps m := by
  have hamount := lockAmountQuote_nonneg h.buyLockPrice_nonneg h.qty_nonneg m.pricePrecision
  unfold lockAmount
  split
  · dsimp only
    split_ifs
    · exact roundDown_nonneg (mul_nonneg hamount (by positivity))
    · exact hamount
  · exact roundDown_nonneg h.qty_nonneg

theorem lockAmount_sell (h : c.Priced m) (hside : c.side = .sell) (slippageBps : ℚ) :
    c.lockAmount slippageBps m = c.qtyRounded := by
  rw [lockAmount, hside]
  exact h.qty_grid.roundDown_eq

end CheckedOrder.Priced

theorem pos_of_checkPrice {m : SpotMarket} {kind : OrderKind} {text : DecimalText} {qty : ℚ}
    {price : Option ℚ} (h : checkPrice m kind text qty = .ok price) : ∀ p ∈ price, 0 < p := by
  intro p hp
  rw [checkPrice] at h
  split_ifs at h
  · simp only [bind_eq_ok, refuseIf_eq_ok, exists_const, pure_eq_ok] at h
    obtain ⟨q, -, hpos, -, rfl⟩ := h
    cases hp
    exact not_le.mp hpos
  · cases h
    cases hp

theorem pos_of_checkStopPrice {m : SpotMarket} {kind : OrderKind} {text : DecimalText} {stopPrice :
    Option ℚ} (h : checkStopPrice m kind text = .ok stopPrice) : ∀ p ∈ stopPrice, 0 < p := by
  intro p hp
  unfold checkStopPrice at h
  split_ifs at h
  · cases text with
    | finite q =>
      simp only [bind_eq_ok, refuseIf_eq_ok, exists_const, pure_eq_ok] at h
      obtain ⟨hpos, rfl⟩ := h
      cases hp
      exact not_le.mp hpos
    | _ => cases h
  · cases h
    cases hp

theorem checkOrder_priced {cfg : RouteConfig} {markets : Market → Option SpotMarket}
    {best : Market → BestPrices} (hbest : ∀ symbol, 0 ≤ (best symbol).bestAsk) {userId : UserId}
    {body : PlaceBody} {c : CheckedOrder} (h : checkOrder cfg markets best userId body = .ok c) :
    ∃ m, markets c.market = some m ∧ c.Priced m := by
  simp only [checkOrder, bind_eq_ok, refuseIf_eq_ok, exists_const, pure_eq_ok] at h
  obtain ⟨parsed, hparsed, m, hm, -, price, hprice, stopPrice, hstop, delta, -, -, -, -, rfl⟩ := h
  refine ⟨m, checkMarket_eq_ok hm, ?_⟩
  exact
    { qty_grid := onGrid_roundDown _ _
      qty_nonneg := roundDown_nonneg (parseBody_eq_ok hparsed).1.le
      price_nonneg := fun p hp => (pos_of_checkPrice hprice p hp).le
      stop_nonneg := fun p hp => (pos_of_checkStopPrice hstop p hp).le
      ask_nonneg := hbest _ }

theorem getBestAsk_nonneg {rows : List OrderRow} (h : ∀ r ∈ rows, ∀ p ∈ r.price, 0 ≤ p)
    (market : Market) : 0 ≤ getBestAsk rows market := by
  unfold getBestAsk
  cases hmin : (openPrices rows market .sell).min? with
  | none => exact le_rfl
  | some p =>
    obtain ⟨r, hr, hp⟩ := mem_filterMap.mp (List.min?_mem hmin)
    exact h r (mem_of_mem_filter hr) p hp

namespace FundsConfig

variable (cfg : FundsConfig)

def Accepts (c : CheckedOrder) : Prop := ∃ m, cfg.markets c.market = some m ∧ c.Priced m

def share (c : CheckedOrder) : ℚ := cfg.lockAmount c / c.qtyRounded

variable {cfg} {c : CheckedOrder}

variable (h : cfg.Accepts c)

include h

theorem Accepts.lockAmount_nonneg : 0 ≤ cfg.lockAmount c := by
  obtain ⟨m, hm, hpriced⟩ := h
  rw [lockAmount, hm]
  exact hpriced.lockAmount_nonneg cfg.slippage_nonneg

theorem Accepts.qty_nonneg : 0 ≤ c.qtyRounded := by
  obtain ⟨m, -, hpriced⟩ := h
  exact hpriced.qty_nonneg

theorem Accepts.share_nonneg : 0 ≤ cfg.share c :=
  div_nonneg h.lockAmount_nonneg h.qty_nonneg

theorem Accepts.share_mul_le : cfg.share c * c.qtyRounded ≤ cfg.lockAmount c := by
  rcases h.qty_nonneg.eq_or_lt with hzero | hpos
  · rw [← hzero, mul_zero]
    exact h.lockAmount_nonneg
  · rw [share, div_mul_cancel₀ _ hpos.ne']

theorem Accepts.share_sell (hside : c.side = .sell) (hpos : 0 < c.qtyRounded) :
    cfg.share c = 1 := by
  obtain ⟨m, hm, hpriced⟩ := h
  rw [share, lockAmount, hm]
  change c.lockAmount cfg.slippageBps m / c.qtyRounded = 1
  rw [hpriced.lockAmount_sell hside, div_self hpos.ne']

theorem Accepts.priceForUnlock_nonneg {r : OrderRow} (hterms : r.terms = c.terms) :
    0 ≤ r.priceForUnlock := by
  obtain ⟨m, -, hpriced⟩ := h
  have hprice : r.price = c.price := congrArg (fun x => x.2.1) hterms
  have hstop : r.stopPrice = c.stopPrice := congrArg (fun x => x.2.2.1) hterms
  rw [OrderRow.priceForUnlock, hprice, hstop]
  cases hp : c.price with
  | some p => exact hpriced.price_nonneg p hp
  | none =>
    cases hs : c.stopPrice with
    | some p => exact hpriced.stop_nonneg p hs
    | none => exact le_rfl

end FundsConfig

/-- The step neither checks nor stores a request, settles no fill, and is not a failed call. -/
def SpotAction.settlesNothing : SpotAction → Bool
  | .check _ _ | .commit _ _ _ | .settle _ => false
  | .place _ _ answer => answer == .ok
  | .trigger _ _ _ | .readCancel _ _ | .cancelOnEngine _ | .commitCancel _ => true

namespace SpotState

/-- No row got a settled quantity, and the events that were produced wait for their
settlement. -/
structure KeepsFills (s s' : SpotState) : Prop where
  checked : s'.checked ⊆ s.checked
  accepted : s'.accepted = s.accepted
  ids : s'.orders.map OrderRow.id = s.orders.map OrderRow.id
  rows : ∀ r' ∈ s'.orders, ∃ r ∈ s.orders, r'.id = r.id ∧ r'.filledQuantity = r.filledQuantity
  placed : s.placed ⊆ s'.placed
  events : ∃ es, s'.unsettled = s.unsettled ++ es ∧ s'.produced = s.produced ++ es

namespace KeepsFills

variable {s s' : SpotState}

theorem of_eq (hchecked : s'.checked ⊆ s.checked) (haccepted : s'.accepted = s.accepted)
    (horders : s'.orders = s.orders) (hplaced : s'.placed = s.placed)
    (hunsettled : s'.unsettled = s.unsettled) (hproduced : s'.produced = s.produced) :
    KeepsFills s s' where
  checked := hchecked
  accepted := haccepted
  ids := by rw [horders]
  rows := fun r hr => ⟨r, horders ▸ hr, rfl, rfl⟩
  placed := fun _ h => hplaced ▸ h
  events := ⟨[], by rw [hunsettled, append_nil], by rw [hproduced, append_nil]⟩

theorem refl (s : SpotState) : KeepsFills s s :=
  of_eq (List.Subset.refl _) rfl rfl rfl rfl rfl

theorem of_updateOrder {id : OrderId} {f : OrderRow → OrderRow}
    (horders : s'.orders = (s.updateOrder id f).orders) (hid : ∀ r, (f r).id = r.id)
    (hfilled : ∀ r, (f r).filledQuantity = r.filledQuantity)
    (hchecked : s'.checked = s.checked) (haccepted : s'.accepted = s.accepted)
    (hplaced : s'.placed = s.placed) (hunsettled : s'.unsettled = s.unsettled)
    (hproduced : s'.produced = s.produced) : KeepsFills s s' where
  checked := fun _ h => hchecked ▸ h
  accepted := haccepted
  ids := by rw [horders, map_id_updateOrder hid]
  rows := by
    intro r' hr'
    rw [horders] at hr'
    obtain ⟨r, hr, ⟨-, rfl⟩ | ⟨-, rfl⟩⟩ := mem_updateOrder hr'
    · exact ⟨r, hr, hid r, hfilled r⟩
    · exact ⟨r', hr, rfl, rfl⟩
  placed := fun _ h => hplaced ▸ h
  events := ⟨[], by rw [hunsettled, append_nil], by rw [hproduced, append_nil]⟩

end KeepsFills

theorem Change.keepsFills {cfg : RouteConfig} {markets : Market → Option SpotMarket}
    {act : SpotAction} {s s' : SpotState} (hchange : Change cfg markets s act s')
    (hact : act.settlesNothing = true) : KeepsFills s s' := by
  cases hchange with
  | same => exact .refl s
  | checked | killed | stored | refused | lost | settled => exact Bool.noConfusion hact
  | placed =>
    exact ⟨List.Subset.refl _, rfl, rfl, fun r hr => ⟨r, hr, rfl, rfl⟩,
      subset_append_left _ _, _, rfl, rfl⟩
  | trailed | opened | cancelled =>
    exact .of_updateOrder rfl (fun _ => rfl) (fun _ => rfl) rfl rfl rfl rfl rfl
  | read | told => exact .of_eq (List.Subset.refl _) rfl rfl rfl rfl rfl

end SpotState

namespace FundsState

variable {cfg : FundsConfig} {s : FundsState}

/-- Of every order at most its lock was debited and unlocked. -/
def WithinLock (cfg : FundsConfig) (s : FundsState) : Prop :=
  ∀ a ∈ s.spot.accepted, s.debited a.1 + s.unlocked a.1 ≤ cfg.lockAmount a.2
  deriving Decidable

/-- The row that a cancel has read is unlocked for the first time, still has the filled
quantity that was read, and is not unlocked at a higher price than it was locked at. -/
def UnlocksShare (cfg : FundsConfig) (s : FundsState) (r : OrderRow) : Prop :=
  r.id ∉ s.unlocks.map Prod.fst ∧
    (∀ r' ∈ s.spot.orders, r'.id = r.id → r'.filledQuantity = r.filledQuantity) ∧
    (r.side = .buy → ∀ a ∈ s.spot.accepted, a.1 = r.id →
      r.priceForUnlock * a.2.qtyRounded ≤ cfg.lockAmount a.2)
  deriving Decidable

/-- No order of the event was unlocked, and a fill of a buy costs no more than its share. -/
def SettlesShare (cfg : FundsConfig) (s : FundsState) (ev : MatchEvent) : Prop :=
  ∀ a ∈ s.spot.accepted, a.1 = ev.takerOrderId ∨ a.1 = ev.makerOrderId →
    a.1 ∉ s.unlocks.map Prod.fst ∧
      (a.2.side = .buy → ∀ assets ∈ (resolveMarketAssets cfg.context ev.market).toOption,
        fillDebit assets.qtyPrecision assets.quotePrecision .buy ev.price ev.quantity *
            a.2.qtyRounded ≤
          cfg.lockAmount a.2 * roundDown assets.qtyPrecision ev.quantity)
  deriving Decidable

/-- The calls of the engine succeed, and every cancel and every settlement keeps to the
shares. -/
def KeepsShares (cfg : FundsConfig) (s : FundsState) : SpotAction → Prop
  | .place _ _ answer => answer = .ok
  | .commitCancel i => ∀ x ∈ s.spot.cancelling[i]?, x.engineDone = true →
      s.UnlocksShare cfg x.row
  | .settle i => ∀ ev ∈ s.spot.unsettled[i]?, s.SettlesShare cfg ev
  | _ => True

instance (cfg : FundsConfig) (s : FundsState) : ∀ act, Decidable (s.KeepsShares cfg act)
  | .place .. => inferInstanceAs (Decidable (_ = _))
  | .commitCancel _ => inferInstanceAs (Decidable (∀ x ∈ _, _ → s.UnlocksShare cfg _))
  | .settle _ => inferInstanceAs (Decidable (∀ ev ∈ _, s.SettlesShare cfg ev))
  | .check .. | .commit .. | .trigger .. | .readCancel .. | .cancelOnEngine .. => .isTrue trivial

/-- The fills of every order are debited their shares, and what is unlocked for it is the
share of the rest. -/
structure Funded (cfg : FundsConfig) (s : FundsState) : Prop where
  traded : s.spot.Traded
  checked : ∀ c ∈ s.spot.checked, cfg.Accepts c
  accepted : ∀ a ∈ s.spot.accepted, cfg.Accepts a.2
  filled : ∀ r ∈ s.spot.orders, r.filledQuantity = s.settledQty r.id
  settled : ∀ id, s.settledQty id + filledQty id s.spot.unsettled ≤ filledQty id s.spot.produced
  fill_of : ∀ f ∈ s.fills, f.orderId ∈ s.spot.placed
  fill_nonneg : ∀ f ∈ s.fills, 0 ≤ f.fillQty
  unlock_of : ∀ u ∈ s.unlocks, u.1 ∈ s.spot.orders.map OrderRow.id
  debits : ∀ a ∈ s.spot.accepted, s.debited a.1 ≤ cfg.share a.2 * s.settledQty a.1
  unlocks : ∀ a ∈ s.spot.accepted, a.1 ∈ s.unlocks.map Prod.fst →
    s.unlocked a.1 ≤ cfg.share a.2 * (a.2.qtyRounded - s.settledQty a.1)

theorem unlocked_eq_zero {id : OrderId} (h : id ∉ s.unlocks.map Prod.fst) : s.unlocked id = 0 :=
  tally_eq_zero _ _ fun _ he heq => h (heq ▸ mem_map_of_mem he)

namespace Funded

theorem init (cfg : FundsConfig) (bal : Balances) : Funded cfg (init bal) := by
  refine ⟨SpotState.Traded.init, ?_, ?_, ?_, ?_, ?_, ?_, ?_, ?_, ?_⟩ <;>
    simp [FundsState.init, SpotState.init, settledQty]

variable {a : OrderId × CheckedOrder} {spot : SpotState}

variable (h : s.Funded cfg)

include h

theorem settledQty_le (ha : a ∈ s.spot.accepted) : s.settledQty a.1 ≤ a.2.qtyRounded := by
  have hsettled := h.settled a.1
  have hwithin := h.traded.within a.1 a.2 ha
  have hunsettled : 0 ≤ filledQty a.1 s.spot.unsettled :=
    filledQty_nonneg fun ev hev =>
      (h.traded.trades ev (h.traded.consistent.unsettled_produced hev)).pos
  have hresting : 0 ≤ restingQty a.1 s.spot.engine.orders :=
    restingQty_nonneg h.traded.wellFormed.positive a.1
  linarith

theorem withinLock : s.WithinLock cfg := by
  intro a ha
  have haccepts := h.accepted a ha
  have hdebits := h.debits a ha
  have hshare := haccepts.share_mul_le
  by_cases hunlocked : a.1 ∈ s.unlocks.map Prod.fst
  · have hunlocks := h.unlocks a ha hunlocked
    rw [mul_sub] at hunlocks
    linarith
  · have hsettled := mul_le_mul_of_nonneg_left (h.settledQty_le ha) haccepts.share_nonneg
    rw [unlocked_eq_zero hunlocked]
    linarith

theorem keep (htraded : spot.Traded) (hkeeps : SpotState.KeepsFills s.spot spot) (bal : Balances) :
    Funded cfg { s with spot := spot, bal := bal } where
  traded := htraded
  checked := fun c hc => h.checked c (hkeeps.checked hc)
  accepted := hkeeps.accepted ▸ h.accepted
  filled := by
    intro r' hr'
    obtain ⟨r, hr, hid, hfilled⟩ := hkeeps.rows r' hr'
    rw [hfilled, hid]
    exact h.filled r hr
  settled := by
    intro id
    obtain ⟨es, hunsettled, hproduced⟩ := hkeeps.events
    have hsettled := h.settled id
    change s.settledQty id + filledQty id spot.unsettled ≤ filledQty id spot.produced
    rw [hunsettled, hproduced, filledQty_append, filledQty_append]
    linarith
  fill_of := fun f hf => hkeeps.placed (h.fill_of f hf)
  fill_nonneg := h.fill_nonneg
  unlock_of := hkeeps.ids ▸ h.unlock_of
  debits := hkeeps.accepted ▸ h.debits
  unlocks := hkeeps.accepted ▸ h.unlocks

theorem bestAsk_nonneg (market : Market) : 0 ≤ (bestPrices s.spot.orders market).bestAsk := by
  apply getBestAsk_nonneg
  intro r hr p hp
  obtain ⟨c, hc, -⟩ := h.traded.consistent.exists_request hr
  obtain ⟨m, -, hpriced⟩ := h.accepted _ hc
  have hprice : r.price = c.price := congrArg (fun x => x.2.1) (h.traded.row_terms r hr c hc)
  exact hpriced.price_nonneg p (hprice ▸ hp)

theorem checked_change {userId : UserId} {body : PlaceBody}
    (hchange : SpotState.Change cfg.route cfg.markets s.spot
      (.check userId body) spot) : Funded cfg { s with spot := spot } := by
  have htraded := h.traded.change hchange trivial
  cases hchange with
  | same => exact h
  | checked hcheck =>
    exact { h with
      traded := htraded
      checked := forall_mem_concat h.checked (checkOrder_priced h.bestAsk_nonneg hcheck) }

theorem store {c : CheckedOrder} (hc : cfg.Accepts c) {id : OrderId}
    (hid : id ∉ s.spot.orders.map OrderRow.id) (htraded : spot.Traded)
    (horders : spot.orders = s.spot.orders ++ [c.row id])
    (haccepted : spot.accepted = s.spot.accepted ++ [(id, c)])
    (hchecked : spot.checked ⊆ s.spot.checked) (hplaced : spot.placed = s.spot.placed)
    (hunsettled : spot.unsettled = s.spot.unsettled) (hproduced : spot.produced = s.spot.produced)
    (bal : Balances) : Funded cfg { s with spot := spot, bal := bal } := by
  have hnew : id ∉ s.spot.accepted.map Prod.fst := h.traded.consistent.ids_eq ▸ hid
  have hfill : ∀ f ∈ s.fills, f.orderId ≠ id := fun f hf heq =>
    hnew (h.traded.consistent.placed_accepted _ (heq ▸ h.fill_of f hf))
  have hsettled : s.settledQty id = 0 := tally_eq_zero _ _ hfill
  refine ⟨htraded, fun c hc => h.checked c (hchecked hc),
    haccepted ▸ forall_mem_concat h.accepted hc,
    horders ▸ forall_mem_concat h.filled hsettled.symm, ?_, hplaced ▸ h.fill_of, h.fill_nonneg,
    ?_, ?_, ?_⟩
  · rw [hunsettled, hproduced]
    exact h.settled
  · rw [horders, map_append]
    exact fun u hu => mem_append_left _ (h.unlock_of u hu)
  · rw [haccepted]
    refine forall_mem_concat h.debits ?_
    change s.debited id ≤ cfg.share c * s.settledQty id
    rw [hsettled, mul_zero]
    exact (tally_eq_zero _ _ hfill).le
  · rw [haccepted]
    refine forall_mem_concat h.unlocks fun hunlocked => ?_
    obtain ⟨u, hu, rfl⟩ := mem_map.mp hunlocked
    exact absurd (h.unlock_of u hu) hid

theorem eraseChecked (i : ℕ) :
    Funded cfg { s with spot := { s.spot with checked := s.spot.checked.eraseIdx i } } := by
  apply h.keep
  · exact { h.traded with
      consistent := { h.traded.consistent with
        checked_valid := fun c hc =>
          h.traded.consistent.checked_valid c (List.eraseIdx_subset hc) } }
  · exact .of_eq List.eraseIdx_subset rfl rfl rfl rfl rfl

theorem commit (i : ℕ) (id : OrderId) (nowMs : ℕ) : (s.commit cfg i id nowMs).Funded cfg := by
  have htraded :=
    h.traded.change (s.spot.change_of_step cfg.route cfg.markets (.commit i id nowMs)) trivial
  unfold FundsState.commit
  split
  case h_1 => exact h
  case h_2 c hget =>
    have hc := h.checked c (mem_of_getElem? hget)
    simp only [SpotState.step, SpotState.commit, hget] at htraded ⊢
    split
    case h_1 => exact h.eraseChecked i
    case h_2 bal _ =>
      by_cases hid : id ∈ s.spot.orders.map OrderRow.id
      · rw [if_pos (.inl hid), if_pos hid]
        exact h
      · rw [if_neg hid] at htraded ⊢
        by_cases hfok : c.fokNotFillable s.spot.orders = true
        · rw [if_pos (.inr hfok), if_pos hfok]
          exact h.eraseChecked i
        · rw [if_neg (not_or.mpr ⟨hid, hfok⟩)]
          rw [if_neg hfok] at htraded ⊢
          exact h.store hc hid htraded rfl rfl (List.eraseIdx_subset) rfl rfl rfl bal

theorem quiet (act : SpotAction) (hact : act.Succeeds) (hquiet : act.settlesNothing = true)
    (bal : Balances) :
    Funded cfg { s with spot := s.spot.step cfg.route cfg.markets act, bal := bal } :=
  h.keep (h.traded.step _ _ hact) ((s.spot.change_of_step _ _ act).keepsFills hquiet) bal

theorem place (i : ℕ) (clock : ℕ → ℕ) : (s.place cfg i clock .ok).Funded cfg := by
  unfold FundsState.place
  split
  · exact h
  · exact h.quiet (.place i clock .ok) rfl rfl _

theorem settledQty_nonneg (id : OrderId) : 0 ≤ s.settledQty id :=
  tally_nonneg _ fun f hf _ => h.fill_nonneg f hf

theorem unlockAmount_le (ha : a ∈ s.spot.accepted) {r : OrderRow} (hterms : r.terms = a.2.terms)
    (hfilled : r.filledQuantity = s.settledQty a.1)
    (hprice : r.side = .buy → r.priceForUnlock * a.2.qtyRounded ≤ cfg.lockAmount a.2) :
    r.unlockAmount ≤ cfg.share a.2 * (a.2.qtyRounded - s.settledQty a.1) := by
  have haccepts := h.accepted a ha
  have hside : r.side = a.2.side := congrArg Prod.fst hterms
  have hqty : r.quantity = a.2.qtyRounded := congrArg (fun x => x.2.2.2) hterms
  have hrest : 0 ≤ a.2.qtyRounded - s.settledQty a.1 := sub_nonneg.mpr (h.settledQty_le ha)
  have hround : roundDown 8 (roundDown 8 (a.2.qtyRounded - s.settledQty a.1)) ≤
      a.2.qtyRounded - s.settledQty a.1 :=
    (roundDown_le (roundDown_nonneg hrest)).trans (roundDown_le hrest)
  rcases haccepts.qty_nonneg.eq_or_lt with hzero | hpos
  · -- an order without a quantity has nothing to unlock
    have hrest0 : a.2.qtyRounded - s.settledQty a.1 = 0 := by
      have := h.settledQty_nonneg a.1
      linarith
    rw [hrest0, mul_zero, OrderRow.unlockAmount, hqty, hfilled, hrest0]
    cases r.side <;> simp [unlockAmountQuote, unlockAmountBase, lockAmountQuote, lockAmountBase]
  · rw [OrderRow.unlockAmount, hqty, hfilled]
    cases hcase : r.side with
    | sell =>
      rw [haccepts.share_sell (hside ▸ hcase) hpos, one_mul]
      exact hround
    | buy =>
      have hprice_nonneg := haccepts.priceForUnlock_nonneg hterms
      have hshare : r.priceForUnlock ≤ cfg.share a.2 := by
        rw [FundsConfig.share, le_div_iff₀ hpos]
        exact hprice hcase
      calc unlockAmountQuote r.priceForUnlock
            (roundDown 8 (a.2.qtyRounded - s.settledQty a.1)) 8
          ≤ roundDown 8 r.priceForUnlock *
              roundDown 8 (roundDown 8 (a.2.qtyRounded - s.settledQty a.1)) :=
            roundDown_le (mul_nonneg (roundDown_nonneg hprice_nonneg)
              (roundDown_nonneg (roundDown_nonneg hrest)))
        _ ≤ r.priceForUnlock * (a.2.qtyRounded - s.settledQty a.1) :=
            mul_le_mul (roundDown_le hprice_nonneg) hround
              (roundDown_nonneg (roundDown_nonneg hrest)) hprice_nonneg
        _ ≤ cfg.share a.2 * (a.2.qtyRounded - s.settledQty a.1) :=
            mul_le_mul_of_nonneg_right hshare hrest

theorem commitCancel {i : ℕ} (hcond : s.KeepsShares cfg (.commitCancel i)) :
    (s.commitCancel cfg i).Funded cfg := by
  have hkeeps : SpotState.KeepsFills s.spot (s.spot.commitCancel i) :=
    (s.spot.change_of_step cfg.route cfg.markets (.commitCancel i)).keepsFills rfl
  unfold FundsState.commitCancel
  split
  case h_1 r hget =>
    obtain ⟨honce, hrow, hprice⟩ := hcond _ hget rfl
    have hread : (⟨r, true⟩ : Cancelling) ∈ s.spot.cancelling := mem_of_getElem? hget
    have hstored := h.traded.read_stored _ hread
    split
    case h_1 =>
      exact h.keep (h.traded.eraseCancelling i) (.of_eq (List.Subset.refl _) rfl rfl rfl rfl rfl) _
    case h_2 bal _ =>
      have hkept := h.quiet (.commitCancel i) trivial rfl bal
      refine { hkept with
        unlock_of := forall_mem_concat hkept.unlock_of (hkeeps.ids ▸ hstored), unlocks := ?_ }
      · intro a ha hunlocked
        have ha' : a ∈ s.spot.accepted := hkeeps.accepted ▸ ha
        change tally Prod.fst Prod.snd (s.unlocks ++ [(r.id, r.unlockAmount)]) a.1 ≤ _
        rw [tally_append, tally_cons, tally_nil, add_zero]
        by_cases hid : r.id = a.1
        · rw [if_pos hid]
          have hzero : tally Prod.fst Prod.snd s.unlocks a.1 = 0 :=
            unlocked_eq_zero (hid ▸ honce)
          rw [hzero, zero_add]
          have hterms := h.traded.read_terms _ hread a.2 (hid ▸ ha')
          obtain ⟨r', hr', hid'⟩ := mem_map.mp hstored
          apply h.unlockAmount_le ha' hterms
          · rw [← hrow r' hr' hid', h.filled r' hr', hid', hid]
          · exact fun hside => hprice hside a ha' hid.symm
        · rw [if_neg hid, add_zero]
          rw [map_append] at hunlocked
          rcases mem_append.mp hunlocked with hunlocked | hunlocked
          · exact h.unlocks a ha' hunlocked
          · exact absurd (mem_singleton.mp hunlocked).symm hid
  case h_2 => exact h

theorem fillDebit_le (ha : a ∈ s.spot.accepted) {ev : MatchEvent} (hev : ev ∈ s.spot.produced)
    (hnames : ev.Names a.1) {assets : MarketAssets} (hbuy : a.2.side = .buy →
    fillDebit assets.qtyPrecision assets.quotePrecision .buy ev.price ev.quantity * a.2.qtyRounded ≤
    cfg.lockAmount a.2 * roundDown assets.qtyPrecision ev.quantity) :
    fillDebit assets.qtyPrecision assets.quotePrecision a.2.side ev.price ev.quantity ≤
    cfg.share a.2 * roundDown assets.qtyPrecision ev.quantity := by
  have hpos : 0 < a.2.qtyRounded := by
    have hquantity := (h.traded.trades ev hev).pos
    have hle : ev.quantity ≤ filledQty a.1 s.spot.produced :=
      le_filledQty (fun e he => (h.traded.trades e he).pos) hev hnames
    have hwithin := h.traded.within a.1 a.2 ha
    have hresting := restingQty_nonneg h.traded.wellFormed.positive a.1
    linarith
  cases hside : a.2.side with
  | sell =>
    rw [(h.accepted a ha).share_sell hside hpos, one_mul]
    exact le_rfl
  | buy =>
    rw [FundsConfig.share, div_mul_eq_mul_div, le_div_iff₀ hpos]
    exact hbuy hside

end Funded

variable {ev : MatchEvent} {fillQty : ℚ}

theorem spot_settle_of_ok {i : ℕ} (hget : s.spot.unsettled[i]? = some ev) {assets : MarketAssets}
    (hassets : resolveMarketAssets cfg.context ev.market = .ok assets) {eff : SettlementEffect}
    (heff : MetherCEX.settle (s.settlementContext cfg) i ev.payload s.bal = .ok eff) :
    s.spot.settle cfg.markets i =
      (({ s.spot with unsettled := s.spot.unsettled.eraseIdx i } : SpotState).updateOrder
        ev.takerOrderId (·.addFilled (roundDown assets.qtyPrecision ev.quantity))).updateOrder
        ev.makerOrderId (·.addFilled (roundDown assets.qtyPrecision ev.quantity)) := by
  obtain ⟨m, hm, hqty, -⟩ := cfg.agree ev.market assets hassets
  simp only [MetherCEX.settle, bind_eq_ok, refuseIf_eq_ok, exists_const, pure_eq_ok] at heff
  obtain ⟨-, -, -, -, -, -, -, -, -, horders, -⟩ := heff
  have hmem : ev.takerOrderId ∈ s.spot.orders.map OrderRow.id ∧
      ev.makerOrderId ∈ s.spot.orders.map OrderRow.id := by
    have horders := not_not.mp horders
    exact ⟨of_decide_eq_true horders.1, of_decide_eq_true horders.2⟩
  unfold SpotState.settle
  simp only [hget, hm, if_pos hmem, hqty]

def fillOf (ev : MatchEvent) (fillQty : ℚ) (id : OrderId) : ℚ :=
  (if ev.takerOrderId = id then fillQty else 0) + if ev.makerOrderId = id then fillQty else 0

theorem map_id_addFilled (spot : SpotState) (id : OrderId) (fillQty : ℚ) : (spot.updateOrder
    id (·.addFilled fillQty)).orders.map OrderRow.id = spot.orders.map OrderRow.id :=
  SpotState.map_id_updateOrder fun _ => rfl

theorem mem_addFilled_twice {spot : SpotState}
    {r' : OrderRow} (h : r' ∈ ((spot.updateOrder ev.takerOrderId (·.addFilled fillQty)).updateOrder
    ev.makerOrderId (·.addFilled fillQty)).orders) : ∃ r ∈ spot.orders, r'.id = r.id ∧
    r'.filledQuantity = r.filledQuantity + fillOf ev fillQty r.id := by
  obtain ⟨r₁, hr₁, hmaker⟩ := SpotState.mem_updateOrder h
  obtain ⟨r, hr, htaker⟩ := SpotState.mem_updateOrder hr₁
  refine ⟨r, hr, ?_⟩
  rcases htaker with ⟨hid, rfl⟩ | ⟨hid, rfl⟩
  · rcases hmaker with ⟨hid', rfl⟩ | ⟨hid', rfl⟩
    · have hid' : r.id = ev.makerOrderId := hid'
      simp [fillOf, OrderRow.addFilled, ← hid, ← hid', add_assoc]
    · have hid' : r.id ≠ ev.makerOrderId := hid'
      simp [fillOf, OrderRow.addFilled, ← hid, hid'.symm]
  · rcases hmaker with ⟨hid', rfl⟩ | ⟨hid', rfl⟩
    · simp [fillOf, OrderRow.addFilled, ← hid', Ne.symm hid]
    · simp [fillOf, Ne.symm hid, Ne.symm hid']

theorem fillOf_eq_zero {id : OrderId} (h : ¬ (id = ev.takerOrderId ∨ id = ev.makerOrderId)) :
    fillOf ev fillQty id = 0 := by
  have h := not_or.mp h
  rw [fillOf, if_neg (Ne.symm h.1), if_neg (Ne.symm h.2), add_zero]

theorem fillOf_le (hpos : 0 < ev.quantity) (htwo : ev.takerOrderId ≠ ev.makerOrderId)
    (hlegs : ev.Names ev.takerOrderId ∧ ev.Names ev.makerOrderId) (hle : fillQty ≤ ev.quantity)
    (id : OrderId) : fillOf ev fillQty id ≤ if ev.Names id then ev.quantity else 0 := by
  by_cases htaker : ev.takerOrderId = id
  · subst htaker
    rw [fillOf, if_pos rfl, if_neg htwo.symm, add_zero, if_pos hlegs.1]
    exact hle
  · by_cases hmaker : ev.makerOrderId = id
    · subst hmaker
      rw [fillOf, if_neg htwo, if_pos rfl, zero_add, if_pos hlegs.2]
      exact hle
    · rw [fillOf, if_neg htaker, if_neg hmaker, add_zero]
      split_ifs
      · exact hpos.le
      · exact le_rfl

theorem Funded.settle (h : s.Funded cfg) {i : ℕ} (hcond : s.KeepsShares cfg (.settle i)) :
    (s.settle cfg i).Funded cfg := by
  have htraded : (s.spot.settle cfg.markets i).Traded :=
    h.traded.change (s.spot.change_of_step cfg.route cfg.markets (.settle i)) trivial
  unfold FundsState.settle
  split
  case h_1 => exact h
  case h_2 ev hget =>
    split
    case h_2 => exact h
    case h_1 assets eff hassets heff =>
      have hshares := hcond ev hget
      rw [spot_settle_of_ok hget hassets heff] at htraded ⊢
      have hev : ev ∈ s.spot.produced :=
        h.traded.consistent.unsettled_produced (mem_of_getElem? hget)
      have htrade := h.traded.trades ev hev
      obtain ⟨htaker, hmaker⟩ := h.traded.consistent.produced_legs ev hev
      have hplaced := h.traded.consistent.produced_placed ev hev
      have hround : 0 ≤ roundDown assets.qtyPrecision ev.quantity :=
        roundDown_nonneg htrade.pos.le
      have hround_le : roundDown assets.qtyPrecision ev.quantity ≤ ev.quantity :=
        roundDown_le htrade.pos.le
      set fillQty := roundDown assets.qtyPrecision ev.quantity with hfillQty
      have hsettledQty : ∀ id, tally SettledFill.orderId SettledFill.fillQty
          (s.fills ++ settledFills assets ev) id = s.settledQty id + fillOf ev fillQty id := by
        intro id
        rw [tally_append, settledFills, tally_cons, tally_cons, tally_nil, add_zero]
        rfl
      refine ⟨htraded, h.checked, h.accepted, ?_, ?_, ?_, ?_, ?_, ?_, ?_⟩
      · intro r' hr'
        obtain ⟨r, hr, hid, hfilled⟩ := mem_addFilled_twice hr'
        rw [hfilled, hid, h.filled r hr]
        exact (hsettledQty r.id).symm
      · intro id
        have hsettled := h.settled id
        have hfill := fillOf_le htrade.pos htrade.two ⟨htaker, hmaker⟩ hround_le id
        rw [filledQty_of_getElem? hget] at hsettled
        change tally SettledFill.orderId SettledFill.fillQty _ id +
          filledQty id (s.spot.unsettled.eraseIdx i) ≤ filledQty id s.spot.produced
        rw [hsettledQty]
        linarith
      · exact forall_mem_append.mpr ⟨h.fill_of, forall_mem_cons.mpr
          ⟨hplaced _ htaker, forall_mem_singleton.mpr (hplaced _ hmaker)⟩⟩
      · exact forall_mem_append.mpr ⟨h.fill_nonneg, forall_mem_cons.mpr
          ⟨hround, forall_mem_singleton.mpr hround⟩⟩
      · intro u hu
        rw [map_id_addFilled, map_id_addFilled]
        exact h.unlock_of u hu
      · intro a ha
        have hbefore := h.debits a ha
        have hassets' : assets ∈ (resolveMarketAssets cfg.context ev.market).toOption := by
          rw [hassets]
          rfl
        change tally SettledFill.orderId SettledFill.debit (s.fills ++ settledFills assets ev) a.1 ≤
          cfg.share a.2 * tally SettledFill.orderId SettledFill.fillQty _ a.1
        rw [hsettledQty, mul_add, tally_append, settledFills, tally_cons, tally_cons, tally_nil,
          add_zero]
        apply add_le_add hbefore
        by_cases hid : ev.takerOrderId = a.1
        · have hside := htrade.taker_side a.2 (hid ▸ ha)
          have hle := h.fillDebit_le ha hev (hid ▸ htaker) fun hbuy =>
            (hshares a ha (.inl hid.symm)).2 hbuy assets hassets'
          have hne : ev.makerOrderId ≠ a.1 := fun heq => htrade.two (hid.trans heq.symm)
          rw [hside] at hle
          simpa [fillOf, hid, hne] using hle
        · by_cases hid' : ev.makerOrderId = a.1
          · have hside := htrade.maker_side a.2 (hid' ▸ ha)
            have hle := h.fillDebit_le ha hev (hid' ▸ hmaker) fun hbuy =>
              (hshares a ha (.inr hid'.symm)).2 hbuy assets hassets'
            rw [hside] at hle
            simpa [fillOf, hid, hid'] using hle
          · simp [fillOf, hid, hid']
      · intro a ha hunlocked
        have hnot : ¬ (a.1 = ev.takerOrderId ∨ a.1 = ev.makerOrderId) :=
          fun hid => (hshares a ha hid).1 hunlocked
        change s.unlocked a.1 ≤ cfg.share a.2 *
          (a.2.qtyRounded - tally SettledFill.orderId SettledFill.fillQty _ a.1)
        rw [hsettledQty, fillOf_eq_zero hnot, add_zero]
        exact h.unlocks a ha hunlocked

theorem Funded.step (h : s.Funded cfg) {act : SpotAction} (hact : s.KeepsShares cfg act) :
    (s.step cfg act).Funded cfg := by
  cases act with
  | check userId body =>
    exact h.checked_change (s.spot.change_of_step _ _ (.check userId body))
  | commit i id nowMs => exact h.commit i id nowMs
  | place i clock answer =>
    obtain rfl : answer = .ok := hact
    exact h.place i clock
  | trigger id lastPrice nowMs => exact h.quiet (.trigger id lastPrice nowMs) trivial rfl _
  | readCancel userId id => exact h.quiet (.readCancel userId id) trivial rfl _
  | cancelOnEngine i => exact h.quiet (.cancelOnEngine i) trivial rfl _
  | commitCancel i => exact h.commitCancel hact
  | settle i => exact h.settle hact

/-- In every run in which every cancel and every settlement keeps to the shares, no order is
debited and given back more than it has locked. -/
theorem within_lock (cfg : FundsConfig) (bal : Balances) {acts : List SpotAction}
    (h : Along (step cfg) (KeepsShares cfg) (init bal) acts) :
    (run cfg bal acts).WithinLock cfg :=
  (h.invariant (P := Funded cfg) (.init cfg bal) fun _ _ hs hact => hs.step hact).withinLock

theorem symbol_mem_of_resolve {ctx : SettlementContext} {symbol : Market} {assets : MarketAssets}
    (h : resolveMarketAssets ctx symbol = .ok assets) : symbol ∈ ctx.markets.map (·.symbol) := by
  rw [resolveMarketAssets, orRefuse_bind_eq_ok] at h
  obtain ⟨m, hm, -⟩ := h
  exact mem_map.mpr ⟨m, mem_of_find?_eq_some hm, by simpa using find?_some hm⟩

def sampleFundsContext : SettlementContext where
  markets := [⟨"BTC_USDT", "BTC", "USDT", some 1, some 2, some 2, some 4⟩]
  currencies := [⟨1, "BTC", 8⟩, ⟨2, "USDT", 6⟩]
  rates := feeRates
  makerRebatesEnabled := false
  userExists := fun _ => true
  orderExists := fun _ => true

theorem sampleFundsContext_agrees (symbol : Market)
    (assets : MarketAssets) (h : resolveMarketAssets sampleFundsContext symbol = .ok assets) :
    ∃ m, sampleMarkets symbol = some m ∧ m.qtyPrecision = assets.qtyPrecision ∧ m.baseCurrencyId =
    some assets.baseCurrencyId ∧ m.quoteCurrencyId = some assets.quoteCurrencyId := by
  obtain rfl := mem_singleton.mp (symbol_mem_of_resolve h)
  cases h
  exact ⟨_, rfl, rfl, rfl, rfl⟩

def sampleFunds : FundsConfig :=
  ⟨⟨false⟩, sampleMarkets, 500, by norm_num, sampleFundsContext, sampleFundsContext_agrees⟩

def sampleAvailable : Balances := fun _ _ => ⟨1000, 0⟩

def cancelNow (userId : UserId) (id : OrderId) : List SpotAction :=
  [.readCancel userId id, .cancelOnEngine 0, .commitCancel 0]

def halfSoldRun : List SpotAction :=
  placeNow 1 (sampleBody "sell" "limit" "gtc" (.finite 100) 1 false) 1 1000 ++
    placeNow 2 (sampleBody "buy" "limit" "gtc" (.finite 100) (1 / 2) false) 2 2000 ++
    [.settle 0] ++ cancelNow 1 1

theorem halfSoldRun_within_lock : Along (step sampleFunds) (KeepsShares sampleFunds)
    (init sampleAvailable) halfSoldRun ∧ (run sampleFunds sampleAvailable halfSoldRun).debited 1 =
    1 / 2 ∧ (run sampleFunds sampleAvailable halfSoldRun).unlocked 1 = 1 / 2 ∧
    (run sampleFunds sampleAvailable halfSoldRun).WithinLock sampleFunds :=
  ⟨by decide +kernel, by decide +kernel, by decide +kernel,
    within_lock sampleFunds sampleAvailable (by decide +kernel)⟩

def doubleCancelRun : List SpotAction :=
  placeNow 1 (sampleBody "sell" "limit" "gtc" (.finite 100) 1 false) 1 1000 ++
    placeNow 1 (sampleBody "sell" "limit" "gtc" (.finite 200) 1 false) 2 2000 ++
    [.readCancel 1 1, .readCancel 1 1, .cancelOnEngine 0, .cancelOnEngine 1, .commitCancel 0,
      .commitCancel 0]

def cancelBeforeSettleRun : List SpotAction :=
  placeNow 1 (sampleBody "sell" "limit" "gtc" (.finite 100) 1 false) 1 1000 ++
    placeNow 1 (sampleBody "sell" "limit" "gtc" (.finite 200) 1 false) 2 2000 ++
    placeNow 2 (sampleBody "buy" "limit" "gtc" (.finite 100) 1 false) 3 3000 ++
    cancelNow 1 1 ++ [.settle 0]

def deepMarketBuyRun : List SpotAction :=
  placeNow 1 (sampleBody "sell" "limit" "gtc" (.finite 100) (1 / 2) false) 1 1000 ++
    placeNow 1 (sampleBody "sell" "limit" "gtc" (.finite 200) (1 / 2) false) 2 2000 ++
    placeNow 2 (sampleBody "buy" "limit" "gtc" (.finite 50) 4 false) 3 3000 ++
    placeNow 2 (sampleBody "buy" "market" "" .blank 1 false) 4 4000 ++ [.settle 0, .settle 0]

/-- Two cancels give the lock back twice; a fill that is settled after the cancel is paid
from the lock of another order; and a market buy spends more than it has locked. -/
theorem more_than_locked : ((run sampleFunds sampleAvailable doubleCancelRun).unlocked 1 = 2 ∧
    ¬ (run sampleFunds sampleAvailable doubleCancelRun).WithinLock sampleFunds) ∧
    ((run sampleFunds sampleAvailable cancelBeforeSettleRun).debited 1 = 1 ∧
    (run sampleFunds sampleAvailable cancelBeforeSettleRun).unlocked 1 = 1 ∧
    ¬ (run sampleFunds sampleAvailable cancelBeforeSettleRun).WithinLock sampleFunds) ∧
    ((run sampleFunds sampleAvailable deepMarketBuyRun).debited 4 = 150 ∧
    ¬ (run sampleFunds sampleAvailable deepMarketBuyRun).WithinLock sampleFunds) := by
  decide +kernel

end FundsState

end MetherCEX
