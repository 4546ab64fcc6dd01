import MetherCEX.Settlement.Row
import MetherCEX.Spot.Orders

/-!
# What an order locks, spends and gets back

The route locks an amount when it stores an order, the settlement of a fill takes an amount from
the locked balance, and a cancel unlocks what it computes from the row.
-/

namespace MetherCEX

open Checks Decimal

def lockAmountQuote (price qty : ℚ) (precision : ℕ) : ℚ :=
  roundDown precision (roundDown precision price * roundDown precision qty)

def lockAmountBase (qty : ℚ) (precision : ℕ) : ℚ := roundDown precision qty

def unlockAmountQuote (price qty : ℚ) (precision : ℕ) : ℚ := lockAmountQuote price qty precision

def unlockAmountBase (qty : ℚ) (precision : ℕ) : ℚ := lockAmountBase qty precision

theorem lockAmountQuote_eq {price qty : ℚ} {precision : ℕ} (hprice : OnGrid precision price)
    (hqty : OnGrid precision qty) (hvalue : OnGrid precision (price * qty)) :
    lockAmountQuote price qty precision = price * qty := by
  rw [lockAmountQuote, hprice.roundDown_eq, hqty.roundDown_eq, hvalue.roundDown_eq]

def marketOrderSlippageBuffer : ℚ := 1 / 100

namespace CheckedOrder

def buyLockPrice (m : SpotMarket) (c : CheckedOrder) : ℚ :=
  match c.kind with
  | .market =>
    roundDown m.pricePrecision
      (roundDown m.pricePrecision c.best.bestAsk * (1 + marketOrderSlippageBuffer))
  | .stopLoss => c.stopPrice.getD 0
  | .trailingStopMarket =>
    let trailPrice := c.stopPrice.getD c.best.bestAsk
    if 0 < trailPrice then trailPrice else c.best.bestAsk * (102 / 100)
  | .limit | .stopLimit => c.price.getD 0

/-- What the route locks for an order; `slippageBps` is the reserve of a buy that turns into
a market order when it is triggered. -/
def lockAmount (slippageBps : ℚ) (m : SpotMarket) (c : CheckedOrder) : ℚ :=
  match c.side with
  | .buy =>
    let amount := lockAmountQuote (c.buyLockPrice m) c.qtyRounded m.pricePrecision
    if c.kind = .stopLoss ∨ c.kind = .trailingStopMarket then
      roundDown (m.pricePrecision + 4) (amount * (1 + slippageBps / 10000))
    else amount
  | .sell => lockAmountBase c.qtyRounded m.qtyPrecision

end CheckedOrder

def CheckedOrder.WithinLimit (c : CheckedOrder) (price : ℚ) : Prop :=
  ∀ p ∈ c.price,
    match c.side with
    | .buy => price ≤ p
    | .sell => p ≤ price

instance (c : CheckedOrder) (price : ℚ) : Decidable (c.WithinLimit price) := by
  dsimp only [CheckedOrder.WithinLimit]
  cases c.side <;> infer_instance

namespace OrderRow

def priceForUnlock (r : OrderRow) : ℚ := (r.price <|> r.stopPrice).getD 0

def unlockAmount (r : OrderRow) : ℚ :=
  let remainingQty := roundDown 8 (r.quantity - r.filledQuantity)
  match r.side with
  | .buy => unlockAmountQuote r.priceForUnlock remainingQty 8
  | .sell => unlockAmountBase remainingQty 8

end OrderRow

/-- What the settlement of a fill takes from the locked balance of the order of the given
side. -/
def fillDebit (qtyPrecision quotePrecision : ℕ) (side : Side) (price qty : ℚ) : ℚ :=
  match side with
  | .buy => roundDown quotePrecision (tradeValue price qty)
  | .sell => roundDown qtyPrecision qty

namespace SettlementTerms

variable (t : SettlementTerms)

def buyerId : UserId :=
  match t.payload.takerSide with
  | .buy => t.takerId
  | .sell => t.makerId

def sellerId : UserId :=
  match t.payload.takerSide with
  | .buy => t.makerId
  | .sell => t.takerId

def debit (side : Side) : ℚ :=
  fillDebit t.market.qtyPrecision t.market.quotePrecision side t.payload.price t.payload.qty

def buyerFee : ℚ :=
  match t.payload.takerSide with
  | .buy => t.takerFeeAmt
  | .sell => t.makerFeeAmt

def sellerCredit : ℚ :=
  match t.payload.takerSide with
  | .buy => t.makerQuoteNetCredit
  | .sell => t.takerQuoteNetCredit

def settledBalances (bal : Balances) : Balances := fun u c =>
  let b := bal u c
  if u = t.buyerId ∧ c = t.market.quoteCurrencyId then
    ⟨b.available - t.buyerFee, b.locked - t.debit .buy⟩
  else if u = t.sellerId ∧ c = t.market.baseCurrencyId then ⟨b.available, b.locked - t.debit .sell⟩
  else if u = t.buyerId ∧ c = t.market.baseCurrencyId then ⟨b.available + t.qty, b.locked⟩
  else if u = t.sellerId ∧ c = t.market.quoteCurrencyId then
    ⟨b.available + t.sellerCredit, b.locked⟩
  else b

theorem settledBalances_of_mem_updates (hdistinct : t.market.Distinct)
    (husers : t.takerId ≠ t.makerId) (bal : Balances) {x : BalanceUpdate} (hx : x ∈ t.updates bal) :
    t.settledBalances bal x.userId x.currencyId = ⟨x.available, x.locked⟩ := by
  have hcurrencies := hdistinct.2
  unfold updates at hx
  unfold settledBalances buyerId sellerId buyerFee sellerCredit
  cases hside : t.payload.takerSide <;> simp only [hside] at hx ⊢ <;>
    simp only [List.mem_cons, List.not_mem_nil, or_false] at hx <;>
    rcases hx with rfl | rfl | rfl | rfl <;>
    simp [baseUpdate, quoteUpdate, getBal, hdistinct.assetToCurrency_base, hcurrencies,
      hcurrencies.symm, husers, husers.symm, debit, fillDebit, tradeVal, qty, roundQuote,
      sub_eq_add_neg]

/-- A settlement takes its debits from the locked balances of the buyer and the seller, the
fee from the available balance of the buyer, and leaves all other users alone. -/
theorem applyUpdates_updates (hdistinct : t.market.Distinct) (husers : t.takerId ≠ t.makerId)
    (bal : Balances) : applyUpdates bal (t.updates bal) = t.settledBalances bal := by
  funext u c
  by_cases hmem : (u, c) ∈ (t.updates bal).map (·.key)
  · obtain ⟨x, hx, hkey⟩ := List.mem_map.mp hmem
    cases hkey
    rw [applyUpdates_of_mem (updates_keys_nodup hdistinct husers) hx]
    exact (t.settledBalances_of_mem_updates hdistinct husers bal hx).symm
  · rw [applyUpdates_of_not_mem hmem]
    rw [updates_keys] at hmem
    unfold settledBalances buyerId sellerId
    cases t.payload.takerSide <;> split_ifs <;> simp_all

end SettlementTerms

end MetherCEX
