import MetherCEX.Spot.WithinLock

/-!
# Whether accepted orders can pay their fees

The route accepts a buy if the available balance covers its value and its fee
(`validateSpotOrderRiskUserBalances`), and then locks the value alone.
-/

namespace MetherCEX

open Checks Decimal Run Tally List Table

namespace SettlementTerms

variable (t : SettlementTerms)

def ShortOfFee (bal : Balances) (u : UserId) : Prop :=
  match t.payload.takerSide with
  | .buy =>
    u = t.takerId ∧ (t.getBal bal u t.market.quote).available < t.takerFeeAmt ∨
      u = t.makerId ∧ t.makerRebatesEnabled = false ∧
        (t.getBal bal u t.market.quote).available + t.tradeVal < t.makerFeeAmt
  | .sell =>
    u = t.takerId ∧
        (t.getBal bal u t.market.quote).available + t.tradeVal < t.takerFeeAmt ∨
      u = t.makerId ∧ t.makerRebatesEnabled = false ∧
        (t.getBal bal u t.market.quote).available < t.makerFeeAmt

theorem cannotPayFee_iff (bal : Balances) : t.cannotPayFee bal ↔ ∃ u, t.ShortOfFee bal u := by
  unfold cannotPayFee ShortOfFee
  cases t.payload.takerSide with
  | buy | sell => simp [exists_or]

variable {t} in
theorem ShortOfFee.party {bal : Balances} {u : UserId} (h : t.ShortOfFee bal u) :
    u = t.takerId ∨ u = t.makerId := by
  unfold ShortOfFee at h
  split at h
  · exact h.imp And.left And.left
  · exact h.imp And.left And.left

/-- The settlement of a fill with the fee rates of the source. -/
structure Regular : Prop where
  rates : t.rates = feeRates
  price_nonneg : 0 ≤ t.payload.price
  qty_nonneg : 0 ≤ t.payload.qty

namespace Regular

variable {t}

variable (h : t.Regular)

include h

theorem value_nonneg : 0 ≤ tradeValue t.payload.price t.payload.qty :=
  mul_nonneg h.price_nonneg h.qty_nonneg

theorem tradeVal_nonneg : 0 ≤ t.tradeVal := roundDown_nonneg h.value_nonneg

theorem tradeVal_le : t.tradeVal ≤ t.payload.price * t.payload.qty :=
  roundDown_le h.value_nonneg

theorem qty_rounded_nonneg : 0 ≤ t.qty := roundDown_nonneg h.qty_nonneg

theorem takerFeeAmt_le : t.takerFeeAmt ≤ feeRates.taker * t.tradeVal := by
  have hfee : takerFee t.rates t.tradeVal = feeRates.taker * t.tradeVal := by
    rw [takerFee, h.rates, mul_comm]
  rw [takerFeeAmt, roundQuote, hfee]
  exact roundDown_le (mul_nonneg (by norm_num [feeRates]) h.tradeVal_nonneg)

theorem makerFeeAmt_nonneg : 0 ≤ t.makerFeeAmt := by
  apply roundDown_nonneg
  rw [makerFee, h.rates]
  exact mul_nonneg h.tradeVal_nonneg (by norm_num [feeRates])

theorem makerFeeAmt_le : t.makerFeeAmt ≤ feeRates.taker * t.tradeVal := by
  have hfee : makerFee t.rates t.tradeVal = feeRates.maker * t.tradeVal := by
    rw [makerFee, h.rates, mul_comm]
  have hrates : feeRates.maker ≤ feeRates.taker := by norm_num [feeRates]
  rw [makerFeeAmt, roundQuote, hfee]
  exact (roundDown_le (mul_nonneg (by norm_num [feeRates]) h.tradeVal_nonneg)).trans
    (mul_le_mul_of_nonneg_right hrates h.tradeVal_nonneg)

theorem fee_le_tradeVal : feeRates.taker * t.tradeVal ≤ t.tradeVal :=
  mul_le_of_le_one_left h.tradeVal_nonneg (by norm_num [feeRates])

theorem buyerFee_le : t.buyerFee ≤ feeRates.taker * (t.payload.price * t.payload.qty) := by
  have hvalue : feeRates.taker * t.tradeVal ≤
      feeRates.taker * (t.payload.price * t.payload.qty) :=
    mul_le_mul_of_nonneg_left h.tradeVal_le (by norm_num [feeRates])
  unfold buyerFee
  split
  · exact h.takerFeeAmt_le.trans hvalue
  · exact h.makerFeeAmt_le.trans hvalue

theorem makerQuoteNetCredit_nonneg : 0 ≤ t.makerQuoteNetCredit := by
  apply roundDown_nonneg
  have hfee := h.makerFeeAmt_le.trans h.fee_le_tradeVal
  split_ifs
  · exact add_nonneg h.tradeVal_nonneg h.makerFeeAmt_nonneg
  · exact sub_nonneg.mpr hfee

theorem takerQuoteNetCredit_nonneg : 0 ≤ t.takerQuoteNetCredit :=
  roundDown_nonneg (sub_nonneg.mpr (h.takerFeeAmt_le.trans h.fee_le_tradeVal))

theorem not_shortOfFee {bal : Balances} {u : UserId}
    (hnonneg : 0 ≤ (bal u t.market.quoteCurrencyId).available) (hbuyer : u = t.buyerId →
    t.buyerFee ≤ (bal u t.market.quoteCurrencyId).available) : ¬ t.ShortOfFee bal u := by
  have htaker := h.takerFeeAmt_le.trans h.fee_le_tradeVal
  have hmaker := h.makerFeeAmt_le.trans h.fee_le_tradeVal
  unfold ShortOfFee
  unfold buyerId buyerFee at hbuyer
  cases hside : t.payload.takerSide with
  | buy =>
    simp only [hside, getBal, t.market.assetToCurrency_quote] at hbuyer ⊢
    rintro (⟨hu, hshort⟩ | ⟨-, -, hshort⟩)
    · exact absurd (hbuyer hu) (not_le.mpr hshort)
    · linarith
  | sell =>
    simp only [hside, getBal, t.market.assetToCurrency_quote] at hbuyer ⊢
    rintro (⟨-, hshort⟩ | ⟨hu, -, hshort⟩)
    · linarith
    · exact absurd (hbuyer hu) (not_le.mpr hshort)

theorem sellerCredit_nonneg : 0 ≤ t.sellerCredit := by
  unfold sellerCredit
  split
  · exact h.makerQuoteNetCredit_nonneg
  · exact h.takerQuoteNetCredit_nonneg

theorem available_settledBalances (bal : Balances) (u : UserId) (c : CurrencyId) :
    (bal u c).available ≤ (t.settledBalances bal u c).available +
      if u = t.buyerId ∧ c = t.market.quoteCurrencyId then t.buyerFee else 0 := by
  have hqty := h.qty_rounded_nonneg
  have hcredit := h.sellerCredit_nonneg
  unfold settledBalances
  split_ifs <;> simp [hqty, hcredit]

end Regular

theorem applyUpdates_of_ne {bal : Balances} {u : UserId} (htaker : u ≠ t.takerId)
    (hmaker : u ≠ t.makerId) (c : CurrencyId) : applyUpdates bal (t.updates bal) u c = bal u c := by
  apply applyUpdates_of_not_mem
  rw [updates_keys]
  simp [htaker, hmaker]

end SettlementTerms

theorem cannotPayFee_of_settle {ctx : SettlementContext} {id : ℕ} {p : EnginePayload}
    {bal : Balances} (h : settle ctx id p bal = .error .insufficientFundsForFee) :
    ∃ market, resolveMarketAssets ctx p.symbol = .ok market ∧
      SettlementTerms.cannotPayFee ⟨p, market, ctx.rates, ctx.makerRebatesEnabled⟩ bal := by
  have hresolve : resolveMarketAssets ctx p.symbol ≠ .error .insufficientFundsForFee := by
    intro herror
    simp only [resolveMarketAssets, bind_eq_error, orRefuse_eq_error, pure_ne_error,
      reduceCtorEq, and_false, exists_false, or_self] at herror
  simp only [settle, bind_eq_error, refuseIf_eq_error, refuseIf_eq_ok, hresolve, reduceCtorEq,
    and_false, false_or, exists_const, pure_ne_error, or_false, and_true] at h
  obtain ⟨market, hmarket, -, -, -, -, -, hfee⟩ := h
  exact ⟨market, hmarket, hfee⟩

inductive RiskError
  | insufficientQuoteBalance
  | insufficientBaseBalance
  deriving DecidableEq

def validateSpotOrderRiskUserBalances (bal : Balances) (userId : UserId)
    (quoteCurrencyId baseCurrencyId : CurrencyId) (side : Side) (price qty feeRate : ℚ)
    (precision : ℕ) : Except RiskError Unit :=
  let priceDec := roundDown precision price
  let qtyDec := roundDown precision qty
  let feeRateDec := roundDown precision feeRate
  match side with
  | .buy =>
    let requiredQuote := roundDown precision (priceDec * qtyDec)
    let fee := roundDown precision (requiredQuote * feeRateDec)
    let requiredTotal := roundDown precision (requiredQuote + fee)
    refuseIf (roundDown precision (bal userId quoteCurrencyId).available < requiredTotal)
      .insufficientQuoteBalance
  | .sell =>
    refuseIf (roundDown precision (bal userId baseCurrencyId).available < qtyDec)
      .insufficientBaseBalance

def CheckedOrder.priceForRisk (m : SpotMarket) (c : CheckedOrder) : ℚ :=
  match c.side with
  | .buy => c.buyLockPrice m
  | .sell => (c.price <|> c.stopPrice).getD 0

namespace FundsConfig

variable (cfg : FundsConfig)

/-- The risk check and the lock of an order; the balances with the lock, if both succeed. -/
def lockFor (bal : Balances) (c : CheckedOrder) : Option Balances := do
  let m ← cfg.markets c.market
  let baseCurrencyId ← m.baseCurrencyId
  let quoteCurrencyId ← m.quoteCurrencyId
  (validateSpotOrderRiskUserBalances bal c.userId quoteCurrencyId baseCurrencyId c.side
    (c.priceForRisk m) c.qtyRounded feeRates.taker m.pricePrecision).toOption
  let lockCurrencyId ← cfg.lockCurrency c.market c.side
  FundsState.lockTradingBalance bal c.userId lockCurrencyId (cfg.lockAmount c)

def lockPrice (c : CheckedOrder) : ℚ :=
  ((cfg.markets c.market).map fun m => c.buyLockPrice m).getD 0

/-- What the fees of a quantity of an order are at most, if it is filled at no higher price than it
is locked at. -/
def feeOf (c : CheckedOrder) (qty : ℚ) : ℚ :=
  match c.side with
  | .buy => feeRates.taker * (cfg.lockPrice c * qty)
  | .sell => 0

variable {cfg} {bal bal' : Balances} {c : CheckedOrder}

theorem lockFor_eq_some (h : cfg.lockFor bal c = some bal') :
    ∃ lockCurrencyId, cfg.lockCurrency c.market c.side = some lockCurrencyId ∧ bal' =
    bal.set c.userId lockCurrencyId ⟨(bal c.userId lockCurrencyId).available - cfg.lockAmount c,
    (bal c.userId lockCurrencyId).locked + cfg.lockAmount c⟩ := by
  simp only [lockFor, Option.bind_eq_bind, Option.bind_eq_some_iff] at h
  obtain ⟨-, -, -, -, -, -, -, -, lockCurrencyId, hcurrency, hlock⟩ := h
  refine ⟨lockCurrencyId, hcurrency, ?_⟩
  simp only [FundsState.lockTradingBalance] at hlock
  split_ifs at hlock
  exact (Option.some.inj hlock).symm

theorem Accepts.lockPrice_nonneg (h : cfg.Accepts c) : 0 ≤ cfg.lockPrice c := by
  obtain ⟨m, hm, hpriced⟩ := h
  rw [lockPrice, hm]
  exact hpriced.buyLockPrice_nonneg

theorem Accepts.lockPrice_eq (h : cfg.Accepts c) (hvalid : c.Valid) {limit : ℚ}
    (hlimit : c.price = some limit) : cfg.lockPrice c = limit := by
  obtain ⟨m, hm, -⟩ := h
  have hkind : c.kind.hasPrice = true := by
    rw [← hvalid.price_iff, hlimit]
    rfl
  rw [lockPrice, hm, Option.map_some, Option.getD_some, CheckedOrder.buyLockPrice, hlimit]
  cases hcase : c.kind with
  | limit => rfl
  | stopLimit => rfl
  | market | stopLoss | trailingStopMarket => simp [hcase, OrderKind.hasPrice] at hkind

theorem Accepts.feeOf_nonneg (h : cfg.Accepts c) {qty : ℚ} (hqty : 0 ≤ qty) :
    0 ≤ cfg.feeOf c qty := by
  unfold feeOf
  split
  · exact mul_nonneg (by norm_num [feeRates]) (mul_nonneg h.lockPrice_nonneg hqty)
  · exact le_rfl

theorem feeOf_add (cfg : FundsConfig) (c : CheckedOrder) (qty qty' : ℚ) :
    cfg.feeOf c (qty + qty') = cfg.feeOf c qty + cfg.feeOf c qty' := by
  unfold feeOf
  split
  · ring
  · rw [add_zero]

end FundsConfig

/-- An order the route has accepted, and what was settled of it. -/
structure PlacedOrder where
  id : OrderId
  order : CheckedOrder
  filled : ℚ
  deriving DecidableEq

/-- What touches the trading balances: the placement of an order, the settlement of a fill,
and anything else, as a new value of a balance. -/
inductive FeeAction
  | place (id : OrderId) (best : BestPrices) (userId : UserId) (body : PlaceBody)
  | settle (id : ℕ) (p : EnginePayload)
  | other (userId : UserId) (currencyId : CurrencyId) (b : Bucket)
  deriving DecidableEq

structure FeeState where
  bal : Balances
  orders : List PlacedOrder

namespace PlacedOrder

def rest (o : PlacedOrder) : ℚ := o.order.qtyRounded - o.filled

def feeKey (cfg : FundsConfig) (o : PlacedOrder) : UserId × Option CurrencyId :=
  (o.order.userId, cfg.lockCurrency o.order.market o.order.side)

theorem feeKey_eq {cfg : FundsConfig} {o : PlacedOrder} {user : UserId} {c : CurrencyId}
    (huser : o.order.userId = user) (hcurrency : cfg.lockCurrency o.order.market o.order.side =
    some c) : o.feeKey cfg = (user, some c) :=
  Prod.ext huser hcurrency

def Named (p : EnginePayload) (o : PlacedOrder) : Prop :=
  o.id = p.takerOrderId ∧ o.order.userId = p.takerUserId ∨
    o.id = p.makerOrderId ∧ o.order.userId = p.makerUserId
  deriving Decidable

def fillQty (p : EnginePayload) (o : PlacedOrder) : ℚ := if o.Named p then p.qty else 0

def addFill (p : EnginePayload) (o : PlacedOrder) : PlacedOrder :=
  { o with filled := o.filled + o.fillQty p }

/-- The fill is of the market and the side of the order, within its rest, and at a price within its
limit. -/
@[mk_iff]
structure TakesFill (cfg : FundsConfig) (side : Side) (p : EnginePayload) (o : PlacedOrder) :
    Prop where
  market : o.order.market = p.symbol
  side_eq : o.order.side = side
  qty_le : p.qty ≤ o.rest
  limit : o.order.WithinLimit p.price
  no_limit : side = .buy → o.order.price = none → p.price ≤ cfg.lockPrice o.order

instance (cfg : FundsConfig) (side : Side) (p : EnginePayload) (o : PlacedOrder) :
    Decidable (o.TakesFill cfg side p) :=
  decidable_of_iff _ (takesFill_iff cfg side p o).symm

end PlacedOrder

namespace FeeState

section Steps

variable (cfg : FundsConfig)

def place (s : FeeState) (id : OrderId) (best : BestPrices) (userId : UserId)
    (body : PlaceBody) : FeeState :=
  match checkOrder cfg.route cfg.markets (fun _ => best) userId body with
  | .error _ => s
  | .ok c =>
    if id ∈ s.orders.map PlacedOrder.id then s
    else
      match cfg.lockFor s.bal c with
      | none => s
      | some bal => ⟨bal, s.orders ++ [⟨id, c, 0⟩]⟩

def settlementContext (s : FeeState) : SettlementContext :=
  { cfg.context with orderExists := fun id => decide (id ∈ s.orders.map PlacedOrder.id) }

def settle (s : FeeState) (id : ℕ) (p : EnginePayload) : FeeState :=
  match MetherCEX.settle (s.settlementContext cfg) id p s.bal with
  | .error _ => s
  | .ok eff => ⟨applyUpdates s.bal eff.updates, s.orders.map (PlacedOrder.addFill p)⟩

def step (s : FeeState) : FeeAction → FeeState
  | .place id best userId body => s.place cfg id best userId body
  | .settle id p => s.settle cfg id p
  | .other userId currencyId b => { s with bal := s.bal.set userId currencyId b }

def run (bal : Balances) (acts : List FeeAction) : FeeState := acts.foldl (step cfg) ⟨bal, []⟩

/-- What the fees of the open orders of a user in a currency are at most. -/
def reserve (s : FeeState) (userId : UserId) (currencyId : CurrencyId) : ℚ :=
  tally (PlacedOrder.feeKey cfg) (fun o => cfg.feeOf o.order o.rest) s.orders
    (userId, some currencyId)

def FillOf (s : FeeState) (user : UserId) (p : EnginePayload) : Prop :=
  user = p.takerUserId ∨ user = p.makerUserId →
    0 ≤ p.price ∧ 0 ≤ p.qty ∧
      (∀ market ∈ (resolveMarketAssets cfg.context p.symbol).toOption, market.Distinct) ∧
      (user = p.takerUserId → ∃ o ∈ s.orders, o.id = p.takerOrderId ∧ o.order.userId = user ∧
        o.TakesFill cfg p.takerSide p) ∧
      (user = p.makerUserId → ∃ o ∈ s.orders, o.id = p.makerOrderId ∧ o.order.userId = user ∧
        o.TakesFill cfg p.takerSide.opposite p)
  deriving Decidable

/-- The user has the lock of an accepted order, its fees, and the fees of all orders accepted
before. -/
def FeesCovered (user : UserId) (s : FeeState) : FeeAction → Prop
  | .place _ best userId body => userId = user → 0 ≤ best.bestAsk ∧
      ∀ c ∈ (checkOrder cfg.route cfg.markets (fun _ => best) userId body).toOption,
        (cfg.lockFor s.bal c).isSome = true →
          ∀ currencyId ∈ cfg.lockCurrency c.market c.side,
            cfg.lockAmount c + cfg.feeOf c c.qtyRounded + s.reserve cfg user currencyId ≤
              (s.bal user currencyId).available
  | .settle _ p => s.FillOf cfg user p
  | .other userId _ _ => userId ≠ user

instance (user : UserId) (s : FeeState) (act : FeeAction) :
    Decidable (s.FeesCovered cfg user act) := by
  cases act <;> dsimp only [FeesCovered] <;> infer_instance

end Steps

variable {cfg : FundsConfig} {s : FeeState} {user : UserId}

theorem reserve_append (orders : List PlacedOrder) (o : PlacedOrder) (bal bal' : Balances)
    (userId : UserId) (currencyId : CurrencyId) : reserve cfg ⟨bal', orders ++ [o]⟩
    userId currencyId = reserve cfg ⟨bal, orders⟩ userId currencyId + if o.feeKey cfg =
    (userId, some currencyId) then cfg.feeOf o.order o.rest else 0 := by
  rw [reserve, tally_append, tally_cons, tally_nil, add_zero]
  rfl

theorem reserve_addFill (cfg : FundsConfig) (s : FeeState)
    (bal : Balances) (p : EnginePayload) (userId : UserId) (currencyId : CurrencyId) :
    reserve cfg ⟨bal, s.orders.map (PlacedOrder.addFill p)⟩ userId currencyId
    + tally (PlacedOrder.feeKey cfg) (fun o => cfg.feeOf o.order (o.fillQty p)) s.orders (userId,
    some currencyId) = s.reserve cfg userId currencyId := by
  have hvalue : (fun o : PlacedOrder => cfg.feeOf o.order o.rest) =
      fun o => cfg.feeOf o.order (o.addFill p).rest + cfg.feeOf o.order (o.fillQty p) := by
    funext o
    rw [← cfg.feeOf_add]
    congr 1
    simp only [PlacedOrder.rest, PlacedOrder.addFill]
    ring
  symm
  calc s.reserve cfg userId currencyId
      = tally (PlacedOrder.feeKey cfg) (fun o => cfg.feeOf o.order (o.addFill p).rest +
          cfg.feeOf o.order (o.fillQty p)) s.orders (userId, some currencyId) := by
        rw [reserve, hvalue]
    _ = _ := by
        rw [reserve, tally_map]
        exact sum_map_add

/-- The available balances of the user cover the fees of all open orders. -/
structure Covered (cfg : FundsConfig) (user : UserId) (s : FeeState) : Prop where
  ids : (s.orders.map PlacedOrder.id).Nodup
  accepted : ∀ o ∈ s.orders, o.order.userId = user → cfg.Accepts o.order ∧ o.order.Valid
  rest_nonneg : ∀ o ∈ s.orders, o.order.userId = user → 0 ≤ o.rest
  reserve_le : ∀ c, s.reserve cfg user c ≤ (s.bal user c).available

theorem place_cases (cfg : FundsConfig) (s : FeeState) (id : OrderId)
    (best : BestPrices) (userId : UserId) (body : PlaceBody) : s.place cfg id best userId body = s ∨
    ∃ c, checkOrder cfg.route cfg.markets (fun _ => best) userId body = .ok c ∧
    id ∉ s.orders.map PlacedOrder.id ∧ (cfg.lockFor s.bal c).isSome = true ∧ ∃ lockCurrencyId,
    cfg.lockCurrency c.market c.side = some lockCurrencyId ∧ s.place cfg id best userId body =
    ⟨s.bal.set c.userId lockCurrencyId ⟨(s.bal c.userId lockCurrencyId).available - cfg.lockAmount
    c, (s.bal c.userId lockCurrencyId).locked + cfg.lockAmount c⟩, s.orders ++ [⟨id, c, 0⟩]⟩ := by
  unfold place
  cases hcheck : checkOrder cfg.route cfg.markets (fun _ => best) userId body with
  | error e => exact .inl rfl
  | ok c =>
    by_cases hid : id ∈ s.orders.map PlacedOrder.id
    · exact .inl (if_pos hid)
    cases hlock : cfg.lockFor s.bal c with
    | none => exact .inl (by simp [hid, hlock])
    | some bal =>
      obtain ⟨lockCurrencyId, hcurrency, rfl⟩ := FundsConfig.lockFor_eq_some hlock
      exact .inr ⟨c, rfl, hid, by simp [hlock], lockCurrencyId, hcurrency,
        by simp [hid, hlock]⟩

theorem userId_of_checkOrder {route : RouteConfig} {markets : Market → Option SpotMarket}
    {best : Market → BestPrices} {userId : UserId} {body : PlaceBody} {c : CheckedOrder}
    (h : checkOrder route markets best userId body = .ok c) : c.userId = userId := by
  simp only [checkOrder, bind_eq_ok, refuseIf_eq_ok, exists_const, pure_eq_ok] at h
  obtain ⟨-, -, -, -, -, -, -, -, -, -, -, -, -, -, rfl⟩ := h
  rfl

namespace Covered

variable {bal : Balances} {o : PlacedOrder} {id : OrderId} {p : EnginePayload} {t : SettlementTerms}

theorem init (hbal : ∀ c, 0 ≤ (bal user c).available) : Covered cfg user ⟨bal, []⟩ :=
  ⟨nodup_nil, forall_mem_nil _, forall_mem_nil _, hbal⟩

variable (h : s.Covered cfg user)

include h

theorem feeOf_nonneg (c : CurrencyId) :
    ∀ o ∈ s.orders, o.feeKey cfg = (user, some c) → 0 ≤ cfg.feeOf o.order o.rest := by
  intro o ho hkey
  have huser := (Prod.mk.inj hkey).1
  exact (h.accepted o ho huser).1.feeOf_nonneg (h.rest_nonneg o ho huser)

theorem feeOf_le (ho : o ∈ s.orders) (huser : o.order.userId = user) {c : CurrencyId}
    (hcurrency : cfg.lockCurrency o.order.market o.order.side = some c) :
    cfg.feeOf o.order o.rest ≤ (s.bal user c).available := by
  have hle : cfg.feeOf o.order o.rest ≤ s.reserve cfg user c :=
    value_le_tally _ (h.feeOf_nonneg c) ho (PlacedOrder.feeKey_eq huser hcurrency)
  exact hle.trans (h.reserve_le c)

theorem available_nonneg (c : CurrencyId) : 0 ≤ (s.bal user c).available :=
  (tally_nonneg _ (h.feeOf_nonneg c)).trans (h.reserve_le c)

theorem store (hid : id ∉ s.orders.map PlacedOrder.id) {c : CheckedOrder} (hown : c.userId = user →
    cfg.Accepts c ∧ c.Valid) (hreserve : ∀ k, s.reserve cfg user k + (if (c.userId,
    cfg.lockCurrency c.market c.side) = (user, some k) then cfg.feeOf c c.qtyRounded else 0) ≤
    (bal user k).available) : Covered cfg user ⟨bal, s.orders ++ [⟨id, c, 0⟩]⟩ := by
  have hrest : PlacedOrder.rest ⟨id, c, 0⟩ = c.qtyRounded := sub_zero _
  refine ⟨?_, fun o ho huser => ?_, fun o ho huser => ?_, fun k => ?_⟩
  · rw [map_append, nodup_append_comm]
    exact nodup_cons.mpr ⟨hid, h.ids⟩
  · rcases mem_concat ho with ho | rfl
    · exact h.accepted o ho huser
    · exact hown huser
  · rcases mem_concat ho with ho | rfl
    · exact h.rest_nonneg o ho huser
    · rw [hrest]
      exact (hown huser).1.qty_nonneg
  · rw [reserve_append s.orders ⟨id, c, 0⟩ s.bal, hrest]
    exact hreserve k

theorem place {best : BestPrices} {userId : UserId} {body : PlaceBody} (hact : s.FeesCovered cfg
    user (.place id best userId body)) : (s.place cfg id best userId body).Covered cfg user := by
  obtain heq | ⟨c, hcheck, hid, hlocked, lockCurrencyId, hcurrency, heq⟩ :=
    s.place_cases cfg id best userId body
  · rw [heq]
    exact h
  rw [heq]
  have hc : c.userId = userId := userId_of_checkOrder hcheck
  by_cases huser : userId = user
  · obtain ⟨hask, hcovers⟩ := hact huser
    rw [hcheck] at hcovers
    have hcover := hcovers c rfl hlocked lockCurrencyId hcurrency
    refine h.store hid (fun _ => ⟨checkOrder_priced (fun _ => hask) hcheck,
      checkOrder_valid hcheck⟩) fun k => ?_
    rw [hcurrency, hc, huser]
    by_cases hk : lockCurrencyId = k
    · subst hk
      rw [if_pos rfl, Balances.set, if_pos ⟨rfl, rfl⟩]
      dsimp only
      linarith
    · rw [if_neg (by simp [hk]), add_zero, Balances.set_of_ne (by simp [Ne.symm hk])]
      exact h.reserve_le k
  · -- an order of somebody else leaves the balances and the reserve of the user alone
    have hne : c.userId ≠ user := hc.trans_ne huser
    refine h.store hid (fun hown => absurd hown hne) fun k => ?_
    rw [if_neg (by simp [hne]), add_zero, Balances.set_of_ne (by simp [Ne.symm hne])]
    exact h.reserve_le k

theorem fillQty_le (hfill : s.FillOf cfg user p) (ho : o ∈ s.orders)
    (huser : o.order.userId = user) : 0 ≤ o.fillQty p ∧ o.fillQty p ≤ o.rest := by
  unfold PlacedOrder.fillQty
  split_ifs with hnamed
  · rcases hnamed with ⟨hid, hparty⟩ | ⟨hid, hparty⟩
    · have hparty' := huser.symm.trans hparty
      obtain ⟨-, hqty, -, htaker, -⟩ := hfill (.inl hparty')
      obtain ⟨x, hx, hxid, -, htakes⟩ := htaker hparty'
      obtain rfl := List.inj_on_of_nodup_map h.ids ho hx (hid.trans hxid.symm)
      exact ⟨hqty, htakes.qty_le⟩
    · have hparty' := huser.symm.trans hparty
      obtain ⟨-, hqty, -, -, hmaker⟩ := hfill (.inr hparty')
      obtain ⟨x, hx, hxid, -, htakes⟩ := hmaker hparty'
      obtain rfl := List.inj_on_of_nodup_map h.ids ho hx (hid.trans hxid.symm)
      exact ⟨hqty, htakes.qty_le⟩
  · exact ⟨le_rfl, h.rest_nonneg o ho huser⟩

theorem buyer_order (ht : t.Regular) (hmarket : resolveMarketAssets cfg.context t.payload.symbol =
    .ok t.market) (hfill : s.FillOf cfg user t.payload) (hbuyer : user = t.buyerId) :
    ∃ o ∈ s.orders, o.Named t.payload ∧ o.order.userId = user ∧
    cfg.lockCurrency o.order.market o.order.side = some t.market.quoteCurrencyId ∧
    t.payload.qty ≤ o.rest ∧ t.buyerFee ≤ cfg.feeOf o.order t.payload.qty := by
  -- the order of the buyer is that of the taker or that of the maker
  have hexists : ∃ o ∈ s.orders, o.Named t.payload ∧ o.order.userId = user ∧
      o.TakesFill cfg .buy t.payload := by
    unfold SettlementTerms.buyerId at hbuyer
    cases hside : t.payload.takerSide with
    | buy =>
      rw [hside] at hbuyer
      obtain ⟨-, -, -, htaker, -⟩ := hfill (.inl hbuyer)
      obtain ⟨o, ho, hid, huser, htakes⟩ := htaker hbuyer
      rw [hside] at htakes
      exact ⟨o, ho, .inl ⟨hid, huser.trans hbuyer⟩, huser, htakes⟩
    | sell =>
      rw [hside] at hbuyer
      obtain ⟨-, -, -, -, hmaker⟩ := hfill (.inr hbuyer)
      obtain ⟨o, ho, hid, huser, htakes⟩ := hmaker hbuyer
      rw [hside] at htakes
      exact ⟨o, ho, .inr ⟨hid, huser.trans hbuyer⟩, huser, htakes⟩
  obtain ⟨o, ho, hnamed, huser, htakes⟩ := hexists
  obtain ⟨haccepts, hvalid⟩ := h.accepted o ho huser
  have hprice : t.payload.price ≤ cfg.lockPrice o.order := by
    cases hlimit : o.order.price with
    | none => exact htakes.no_limit rfl hlimit
    | some limit =>
      have hwithin := htakes.limit limit hlimit
      rw [htakes.side_eq] at hwithin
      rw [haccepts.lockPrice_eq hvalid hlimit]
      exact hwithin
  have hcurrency : cfg.lockCurrency o.order.market o.order.side =
      some t.market.quoteCurrencyId := by
    obtain ⟨m, hm, -, -, hquote⟩ := cfg.agree t.payload.symbol t.market hmarket
    rw [FundsConfig.lockCurrency, htakes.market, hm, htakes.side_eq]
    exact hquote
  refine ⟨o, ho, hnamed, huser, hcurrency, htakes.qty_le, ht.buyerFee_le.trans ?_⟩
  rw [FundsConfig.feeOf, htakes.side_eq]
  apply mul_le_mul_of_nonneg_left _ (by norm_num [feeRates])
  exact mul_le_mul_of_nonneg_right hprice ht.qty_nonneg

theorem not_shortOfFee (hrates : t.rates = feeRates)
    (hmarket : resolveMarketAssets cfg.context t.payload.symbol = .ok t.market)
    (hfill : s.FillOf cfg user t.payload) : ¬ t.ShortOfFee s.bal user := by
  intro hshort
  obtain ⟨hprice, hqty, -⟩ := hfill hshort.party
  have ht : t.Regular := ⟨hrates, hprice, hqty⟩
  refine ht.not_shortOfFee (h.available_nonneg _) (fun hbuyer => ?_) hshort
  obtain ⟨o, ho, -, huser, hcurrency, hrest, hfee⟩ := h.buyer_order ht hmarket hfill hbuyer
  have hmore : cfg.feeOf o.order o.rest = cfg.feeOf o.order t.payload.qty +
      cfg.feeOf o.order (o.rest - t.payload.qty) := by
    rw [← cfg.feeOf_add, add_sub_cancel]
  have hnonneg := (h.accepted o ho huser).1.feeOf_nonneg (sub_nonneg.mpr hrest)
  have hle := h.feeOf_le ho huser hcurrency
  linarith

theorem available_le (hrates : t.rates = feeRates)
    (hmarket : resolveMarketAssets cfg.context t.payload.symbol = .ok t.market) (husers : t.takerId
    ≠ t.makerId) (hfill : s.FillOf cfg user t.payload) (c : CurrencyId) : (s.bal user c).available ≤
    (applyUpdates s.bal (t.updates s.bal) user c).available + tally (PlacedOrder.feeKey cfg)
    (fun o => cfg.feeOf o.order (o.fillQty t.payload)) s.orders (user, some c) := by
  have hvalues : ∀ o ∈ s.orders, o.feeKey cfg = (user, some c) →
      0 ≤ cfg.feeOf o.order (o.fillQty t.payload) := by
    intro o ho hkey
    have huser := (Prod.mk.inj hkey).1
    exact (h.accepted o ho huser).1.feeOf_nonneg (h.fillQty_le hfill ho huser).1
  by_cases hparty : user = t.takerId ∨ user = t.makerId
  · obtain ⟨hprice, hqty, hdistinct, -⟩ := hfill hparty
    have ht : t.Regular := ⟨hrates, hprice, hqty⟩
    rw [hmarket] at hdistinct
    rw [t.applyUpdates_updates (hdistinct _ rfl) husers]
    refine (ht.available_settledBalances s.bal user c).trans ?_
    rw [add_le_add_iff_left]
    split_ifs with hbuyer
    · obtain ⟨hbuyer, rfl⟩ := hbuyer
      obtain ⟨o, ho, hnamed, huser, hcurrency, -, hfee⟩ :=
        h.buyer_order ht hmarket hfill hbuyer
      have hqty : o.fillQty t.payload = t.payload.qty := if_pos hnamed
      rw [← hqty] at hfee
      exact hfee.trans (value_le_tally _ hvalues ho (PlacedOrder.feeKey_eq huser hcurrency))
    · exact tally_nonneg _ hvalues
  · rw [not_or] at hparty
    rw [t.applyUpdates_of_ne hparty.1 hparty.2]
    exact le_add_of_nonneg_right (tally_nonneg _ hvalues)

theorem settle (hrates : cfg.context.rates = feeRates) {id : ℕ} (hfill : s.FillOf cfg user p) :
    (s.settle cfg id p).Covered cfg user := by
  unfold FeeState.settle
  cases hsettle : MetherCEX.settle (s.settlementContext cfg) id p s.bal with
  | error e => exact h
  | ok eff =>
    obtain ⟨t, rfl, hsettles⟩ := settles_of_settle hsettle
    have hmarket : resolveMarketAssets cfg.context t.payload.symbol = .ok t.market :=
      hsettles.market
    rw [hsettles.effect]
    refine ⟨?_, fun o ho huser => ?_, fun o ho huser => ?_, fun c => ?_⟩
    · rw [map_map]
      exact h.ids
    · obtain ⟨x, hx, rfl⟩ := mem_map.mp ho
      exact h.accepted x hx huser
    · obtain ⟨x, hx, rfl⟩ := mem_map.mp ho
      have hle := (h.fillQty_le hfill hx huser).2
      unfold PlacedOrder.rest at hle ⊢
      dsimp only [PlacedOrder.addFill]
      linarith
    · have hreserve := reserve_addFill cfg s (applyUpdates s.bal (t.updates s.bal))
        t.payload user c
      have hle := h.available_le (hsettles.rates.trans hrates) hmarket hsettles.users hfill c
      have hbefore := h.reserve_le c
      linarith

theorem step (hrates : cfg.context.rates = feeRates) {act : FeeAction}
    (hact : s.FeesCovered cfg user act) : (s.step cfg act).Covered cfg user := by
  cases act with
  | place id best userId body => exact h.place hact
  | settle id p => exact h.settle hrates hact
  | other userId currencyId b =>
    have hne : userId ≠ user := hact
    refine { h with reserve_le := fun c => ?_ }
    change s.reserve cfg user c ≤ (s.bal.set userId currencyId b user c).available
    rw [Balances.set_of_ne (by simp [Ne.symm hne])]
    exact h.reserve_le c

end Covered

abbrev termsOf (cfg : FundsConfig) (p : EnginePayload) (market : MarketAssets) :
    SettlementTerms :=
  ⟨p, market, cfg.context.rates, cfg.context.makerRebatesEnabled⟩

variable {bal : Balances} {p : EnginePayload} {id : ℕ} {acts : List FeeAction}

theorem not_shortOfFee_run (hrates : cfg.context.rates = feeRates) (hbal : ∀ c,
    0 ≤ (bal user c).available) (hcovered : Along (step cfg) (fun s => s.FeesCovered cfg user) ⟨bal,
    []⟩ (acts ++ [.settle id p])) {market : MarketAssets} (hmarket : resolveMarketAssets cfg.context
    p.symbol = .ok market) : ¬ (termsOf cfg p market).ShortOfFee (run cfg bal acts).bal user := by
  obtain ⟨hacts, hfill⟩ := along_concat.mp hcovered
  have hrun : (run cfg bal acts).Covered cfg user :=
    hacts.invariant (P := Covered cfg user) (.init hbal) fun _ _ hs hact => hs.step hrates hact
  exact hrun.not_shortOfFee (t := termsOf cfg p market) hrates hmarket hfill

theorem settle_ne_insufficientFundsForFee (hrates : cfg.context.rates = feeRates)
    (hbal : ∀ u c, 0 ≤ (bal u c).available) (hcovered : ∀ u, u = p.takerUserId ∨ u = p.makerUserId →
    Along (step cfg) (fun s => s.FeesCovered cfg u) ⟨bal, []⟩ (acts ++ [.settle id p])) :
    MetherCEX.settle ((run cfg bal acts).settlementContext cfg) id p (run cfg bal acts).bal ≠
    .error .insufficientFundsForFee := by
  intro herror
  obtain ⟨market, hmarket, hfee⟩ := cannotPayFee_of_settle herror
  obtain ⟨u, hshort⟩ := (SettlementTerms.cannotPayFee_iff _ _).mp hfee
  exact not_shortOfFee_run hrates (hbal u) (hcovered u hshort.party) hmarket hshort

/-- Accepted orders can pay their fees. For every user, in every run in which each accepted
order of the user is covered together with the fees of this order and of all orders accepted
before, in which the fills of the user are fills of these orders within their limits, and in
which nothing else touches the balances of the user: a settlement never lacks the fee of the
user. If it fails with `INSUFFICIENT_FUNDS_FOR_FEE`, the other user lacks the fee. -/
theorem accepted_orders_pay_fees (cfg : FundsConfig) (hrates : cfg.context.rates = feeRates) (user :
    UserId) (bal : Balances) (hbal : ∀ c, 0 ≤ (bal user c).available) (acts : List FeeAction)
    (id : ℕ) (p : EnginePayload) (hcovered : Along (step cfg) (fun s => s.FeesCovered cfg user)
    ⟨bal, []⟩ (acts ++ [.settle id p])) : (∀ market, resolveMarketAssets cfg.context p.symbol =
    .ok market → ¬ (termsOf cfg p market).ShortOfFee (run cfg bal acts).bal user) ∧
    (MetherCEX.settle ((run cfg bal acts).settlementContext cfg) id p (run cfg bal acts).bal =
    .error .insufficientFundsForFee → ∃ other market, other ≠ user ∧ resolveMarketAssets cfg.context
    p.symbol = .ok market ∧ (termsOf cfg p market).ShortOfFee (run cfg bal acts).bal other) := by
  have hpays : ∀ market, resolveMarketAssets cfg.context p.symbol = .ok market →
      ¬ (termsOf cfg p market).ShortOfFee (run cfg bal acts).bal user :=
    fun market hmarket => not_shortOfFee_run hrates hbal hcovered hmarket
  refine ⟨hpays, fun herror => ?_⟩
  obtain ⟨market, hmarket, hfee⟩ := cannotPayFee_of_settle herror
  obtain ⟨other, hother⟩ := (SettlementTerms.cannotPayFee_iff _ _).mp hfee
  refine ⟨other, market, ?_, hmarket, hother⟩
  rintro rfl
  exact hpays market hmarket hother

/-- The market of BTC and USDT, with prices of the given number of places. -/
def placesMarkets (places : ℕ) (symbol : Market) : Option SpotMarket :=
  if symbol = "BTC_USDT" then
    some ⟨"BTC_USDT", .active, 0, "0", 0, "0", places, 4, some 1, some 2⟩
  else none

def placesContext (places : ℕ) : SettlementContext where
  markets := [⟨"BTC_USDT", "BTC", "USDT", some 1, some 2, some places, some 4⟩]
  currencies := [⟨1, "BTC", 8⟩, ⟨2, "USDT", 6⟩]
  rates := feeRates
  makerRebatesEnabled := false
  userExists := fun _ => true
  orderExists := fun _ => true

theorem placesContext_agrees (places : ℕ) (symbol : Market) (assets : MarketAssets)
    (h : resolveMarketAssets (placesContext places) symbol = .ok assets) : ∃ m,
    placesMarkets places symbol = some m ∧ m.qtyPrecision = assets.qtyPrecision ∧ m.baseCurrencyId =
    some assets.baseCurrencyId ∧ m.quoteCurrencyId = some assets.quoteCurrencyId := by
  obtain rfl := mem_singleton.mp (FundsState.symbol_mem_of_resolve h)
  cases h
  exact ⟨_, rfl, rfl, rfl, rfl⟩

def placesFunds (places : ℕ) : FundsConfig :=
  ⟨⟨false⟩, placesMarkets places, 0, le_rfl, placesContext places,
    placesContext_agrees places⟩

def buyerHas (usdt : ℚ) : Balances := fun u c =>
  if u = 7 ∧ c = 2 then ⟨usdt, 0⟩ else if u = 8 ∧ c = 1 then ⟨2, 0⟩ else ⟨0, 0⟩

def offerTwo : FeeAction :=
  .place 1 ⟨0, 0⟩ 8 (sampleBody "sell" "limit" "gtc" (.finite 500) 2 false)

def buyOne (id : OrderId) : FeeAction :=
  .place id ⟨500, 0⟩ 7 (sampleBody "buy" "limit" "gtc" (.finite 500) 1 false)

def oneBought (id : OrderId) : EnginePayload := ⟨"BTC_USDT", 500, 1, id, 1, 7, 8, .buy⟩

/-- With 1001 USDT both fees are covered, and both fills are settled. -/
theorem both_fees_paid :
    (run (placesFunds 8) (buyerHas 1001)
        [offerTwo, buyOne 2, buyOne 3, .settle 1 (oneBought 2), .settle 2 (oneBought 3)]).bal 7 2
      = ⟨0, 0⟩ ∧
      ∀ market, resolveMarketAssets (placesContext 8) "BTC_USDT" = .ok market →
        ¬ (termsOf (placesFunds 8) (oneBought 3) market).ShortOfFee
          (run (placesFunds 8) (buyerHas 1001)
            [offerTwo, buyOne 2, buyOne 3, .settle 1 (oneBought 2)]).bal 7 :=
  ⟨by decide +kernel,
    (accepted_orders_pay_fees (placesFunds 8) rfl 7 (buyerHas 1001)
      (fun c => by unfold buyerHas; split_ifs <;> norm_num)
      [offerTwo, buyOne 2, buyOne 3, .settle 1 (oneBought 2)] 2 (oneBought 3)
      (by decide +kernel)).1⟩

/-- With 1000.5 USDT both orders are accepted, the second one with the fee of the first, and
the second fill cannot be settled. With prices of two places the risk check asks for no fee,
and one order is accepted with 500 USDT. -/
theorem fee_not_reserved : ((run (placesFunds 8) (buyerHas (10005 / 10)) [offerTwo,
    buyOne 2, buyOne 3]).orders.map PlacedOrder.id = [1, 2, 3] ∧
    (run (placesFunds 8) (buyerHas (10005 / 10)) [offerTwo, buyOne 2, buyOne 3]).FillOf (placesFunds
    8) 7 (oneBought 2) ∧ (run (placesFunds 8) (buyerHas (10005 / 10)) [offerTwo, buyOne 2,
    buyOne 3, .settle 1 (oneBought 2)]).FillOf (placesFunds 8) 7 (oneBought 3) ∧ MetherCEX.settle
    (placesContext 8) 2 (oneBought 3) (run (placesFunds 8) (buyerHas (10005 / 10)) [offerTwo,
    buyOne 2, buyOne 3, .settle 1 (oneBought 2)]).bal = .error .insufficientFundsForFee) ∧
    (run (placesFunds 2) (buyerHas 500) [offerTwo, buyOne 2]).orders.map PlacedOrder.id = [1, 2] ∧
    (run (placesFunds 2) (buyerHas 500) [offerTwo, buyOne 2]).FillOf
    (placesFunds 2) 7 (oneBought 2) ∧ MetherCEX.settle (placesContext 2) 1 (oneBought 2) (run
    (placesFunds 2) (buyerHas 500) [offerTwo, buyOne 2]).bal = .error .insufficientFundsForFee := by
  decide +kernel

end FeeState

end MetherCEX
