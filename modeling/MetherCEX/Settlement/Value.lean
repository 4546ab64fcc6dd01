import MetherCEX.Settlement.Row

/-!
# Value conservation of a settlement

A settlement moves base between the two users, and quote between them and the house: what the
users lose in quote together is what `settlement_trades` records as fees.
-/

namespace MetherCEX

open Checks Decimal Tally List SettlementTerms

namespace SettlementTerms

variable (t : SettlementTerms)

theorem roundQuote_add {x y : ℚ} :
    t.roundQuote (t.roundQuote x + t.roundQuote y) = t.roundQuote x + t.roundQuote y :=
  ((onGrid_roundDown _ x).add (onGrid_roundDown _ y)).roundDown_eq

theorem roundQuote_sub {x y : ℚ} :
    t.roundQuote (t.roundQuote x - t.roundQuote y) = t.roundQuote x - t.roundQuote y :=
  ((onGrid_roundDown _ x).sub (onGrid_roundDown _ y)).roundDown_eq

theorem takerQuoteNetCredit_eq : t.takerQuoteNetCredit = t.tradeVal - t.takerFeeAmt :=
  t.roundQuote_sub

theorem makerQuoteNetCredit_eq : t.makerQuoteNetCredit = t.tradeVal - t.makerFeeForDb := by
  cases hrebates : t.makerRebatesEnabled with
  | false =>
    simp only [makerQuoteNetCredit, makerFeeForDb, hrebates, Bool.false_eq_true, if_false]
    exact t.roundQuote_sub
  | true =>
    simp only [makerQuoteNetCredit, makerFeeForDb, hrebates, if_true, sub_neg_eq_add]
    exact t.roundQuote_add

end SettlementTerms

/-- The change of the balances of a set of users in one currency, taken together. -/
def totalChange (users : Finset UserId) (bal bal' : Balances) (c : CurrencyId) : ℚ :=
  ∑ u ∈ users, ((bal' u c).total - (bal u c).total)

def SettlementEffect.feesRecorded (eff : SettlementEffect) : ℚ :=
  (eff.trades.map (fun tr => tr.takerFee + tr.makerFee)).sum

@[simp] theorem totalChange_self (users : Finset UserId) (bal : Balances) (c : CurrencyId) :
    totalChange users bal bal c = 0 := by
  simp [totalChange]

theorem sum_ledgerSum {users : Finset UserId}
    {es : List LedgerEntry} {c : CurrencyId} (h : ∀ e ∈ es, e.userId ∈ users) : ∑ u ∈ users,
    ledgerSum es u c = ((es.filter (fun e => e.currencyId = c)).map (·.delta)).sum := by
  have hsum := sum_tally (fun e : LedgerEntry => (e.userId, e.currencyId)) (·.delta)
    (users ×ˢ {c}) es
  rw [Finset.sum_product] at hsum
  simp only [Finset.sum_singleton] at hsum
  rw [show ∑ u ∈ users, ledgerSum es u c = _ from hsum]
  congr 2
  apply filter_congr
  intro e he
  simp [h e he, eq_comm]

namespace SettlementTerms

variable {t : SettlementTerms} {users : Finset UserId}

theorem userId_of_mem_entries {id : ℕ} {e : LedgerEntry} (h : e ∈ t.entries id) :
    e.userId = t.takerId ∨ e.userId = t.makerId := by
  obtain ⟨d, hd, rfl⟩ := mem_map.mp h
  unfold computeSettlementLedgerDeltasFromPayload at hd
  split at hd <;> simp only [mem_cons, not_mem_nil, or_false] at hd
  · rcases hd with rfl | rfl | rfl | rfl <;> simp
  · rcases hd with rfl | rfl | rfl | rfl <;> simp

theorem totalChange_updates (hmarket : t.market.Distinct) (husers : t.takerId ≠ t.makerId)
    (htaker : t.takerId ∈ users) (hmaker : t.makerId ∈ users) (bal : Balances)
    (id : ℕ) (c : CurrencyId) : totalChange users bal (applyUpdates bal (t.updates bal)) c =
    (((t.entries id).filter (fun e => e.currencyId = c)).map (·.delta)).sum := by
  have hmem : ∀ e ∈ t.entries id, e.userId ∈ users := by
    intro e he
    rcases userId_of_mem_entries he with h | h
    · rwa [h]
    · rwa [h]
  rw [← sum_ledgerSum hmem, totalChange]
  apply Finset.sum_congr rfl
  intro u _
  rw [total_updates hmarket husers bal id, add_sub_cancel_left]

theorem baseDeltas_sum (hmarket : t.market.Distinct) (id : ℕ) : (((t.entries id).filter
    (fun e => e.currencyId = t.market.baseCurrencyId)).map (·.delta)).sum = 0 := by
  cases hside : t.payload.takerSide with
  | buy | sell =>
    simp [entries, computeSettlementLedgerDeltasFromPayload, hside,
      hmarket.assetToCurrency_base, hmarket.2.symm]

theorem quoteDeltas_sum (hmarket : t.market.Distinct) (hrebate : t.makerRebatesEnabled = true →
    t.payload.takerSide = .buy) (id : ℕ) : (((t.entries id).filter (fun e => e.currencyId =
    t.market.quoteCurrencyId)).map (·.delta)).sum = -(t.takerFeeAmt + t.makerFeeForDb) := by
  cases hside : t.payload.takerSide with
  | buy =>
    simp only [entries, computeSettlementLedgerDeltasFromPayload, hside, map_cons,
      map_nil, hmarket.assetToCurrency_base, MarketAssets.assetToCurrency_quote,
      filter_cons, hmarket.2, decide_false, decide_true, makerQuoteNetCredit_eq]
    simp
    ring
  | sell =>
    have hoff : t.makerRebatesEnabled = false := by
      cases hrebates : t.makerRebatesEnabled with
      | false => rfl
      | true => rw [hrebate hrebates] at hside; cases hside
    simp [entries, computeSettlementLedgerDeltasFromPayload, hside,
      hmarket.assetToCurrency_base, hmarket.2, takerQuoteNetCredit_eq, makerFeeForDb, hoff]
    ring

end SettlementTerms

def sampleMarket : MarketRow :=
  { symbol := "BTC-USDT"
    baseAsset := "BTC"
    quoteAsset := "USDT"
    baseCurrencyId := some 1
    quoteCurrencyId := some 2
    pricePrecision := some 2
    qtyPrecision := some 6 }

def sampleContext (rebates : Bool) : SettlementContext :=
  { markets := [sampleMarket]
    currencies := [⟨1, "BTC", 8⟩, ⟨2, "USDT", 6⟩]
    rates := feeRates
    makerRebatesEnabled := rebates
    userExists := fun _ => true
    orderExists := fun _ => true }

/-- One unit is traded at 100, user 1 being the taker and user 2 the maker. -/
def samplePayload (side : Side) : EnginePayload :=
  { symbol := "BTC-USDT"
    price := 100
    qty := 1
    takerOrderId := 11
    makerOrderId := 12
    takerUserId := 1
    makerUserId := 2
    takerSide := side }

def sampleBalances : Balances := fun _ _ => ⟨1000, 1000⟩

def sampleAssets : MarketAssets :=
  { base := "BTC"
    quote := "USDT"
    baseCurrencyId := 1
    quoteCurrencyId := 2
    pricePrecision := 2
    qtyPrecision := 6
    quotePrecision := 6 }

def sampleEffect (rebates : Bool) (side : Side) (id : ℕ) : SettlementEffect :=
  let t : SettlementTerms := ⟨samplePayload side, sampleAssets, feeRates, rebates⟩
  ⟨t.entries id, t.updates sampleBalances, [t.trade]⟩

namespace SettlementTerms

variable {t : SettlementTerms} {qs : List ℚ}

def fill (t : SettlementTerms) (q : ℚ) : SettlementTerms :=
  { t with payload := { t.payload with qty := q } }

def quoteUnit (t : SettlementTerms) : ℚ := 1 / 10 ^ t.market.quotePrecision

theorem tradeVal_fill_nonneg (hprice : 0 ≤ t.payload.price) {q : ℚ} (hq : 0 < q) :
    0 ≤ (t.fill q).tradeVal :=
  roundDown_nonneg (mul_nonneg hprice hq.le)

theorem sum_tradeValues (p : ℚ) (qs : List ℚ) : (qs.map (tradeValue p)).sum = p * qs.sum := by
  have hmul := sum_map_mul_left qs id p
  rwa [map_id] at hmul

variable (hprice : 0 ≤ t.payload.price) (hne : qs ≠ []) (hpos : ∀ q ∈ qs, 0 < q)

include hprice hne hpos

theorem sum_tradeVal_bounds : (qs.map fun q => (t.fill q).tradeVal).sum ≤
    (t.fill qs.sum).tradeVal ∧ (t.fill qs.sum).tradeVal - qs.length * t.quoteUnit <
    (qs.map fun q => (t.fill q).tradeVal).sum := by
  have hvalues : ∀ x ∈ qs.map (tradeValue t.payload.price), 0 ≤ x := by
    intro x hx
    obtain ⟨q, hq, rfl⟩ := mem_map.mp hx
    exact mul_nonneg hprice (hpos q hq).le
  have hle := @sum_roundDown_le t.market.quotePrecision _ hvalues
  have hlt := @sum_sub_lt_sum_roundDown t.market.quotePrecision _ (by simpa) hvalues
  rw [map_map, sum_tradeValues] at hle hlt
  rw [length_map] at hlt
  have hcut : (t.fill qs.sum).tradeVal ≤ t.payload.price * qs.sum :=
    roundDown_le (mul_nonneg hprice (sum_nonneg fun q hq => (hpos q hq).le))
  exact ⟨hle, (sub_le_sub_right hcut _).trans_lt hlt⟩

theorem sum_fee_bounds {rate : ℚ} (hrate : 0 ≤ rate) :
    (qs.map fun q => t.roundQuote ((t.fill q).tradeVal * rate)).sum ≤
    t.roundQuote ((t.fill qs.sum).tradeVal * rate) ∧
    t.roundQuote ((t.fill qs.sum).tradeVal * rate) - (qs.map fun q => t.roundQuote
    ((t.fill q).tradeVal * rate)).sum < (qs.length + rate * qs.length) * t.quoteUnit := by
  obtain ⟨hle, hlt⟩ := sum_tradeVal_bounds hprice hne hpos
  have hfees : ∀ x ∈ qs.map fun q => (t.fill q).tradeVal * rate, 0 ≤ x := by
    intro x hx
    obtain ⟨q, hq, rfl⟩ := mem_map.mp hx
    exact mul_nonneg (tradeVal_fill_nonneg hprice (hpos q hq)) hrate
  have hsum := @sum_roundDown_le t.market.quotePrecision _ hfees
  have hloss := @sum_sub_lt_sum_roundDown t.market.quotePrecision _ (by simpa) hfees
  rw [map_map, sum_map_mul_right] at hsum hloss
  rw [length_map] at hloss
  have htotal : 0 ≤ (t.fill qs.sum).tradeVal :=
    roundDown_nonneg (mul_nonneg hprice (sum_nonneg fun q hq => (hpos q hq).le))
  refine ⟨hsum.trans (roundDown_mono (mul_le_mul_of_nonneg_right hle hrate)), ?_⟩
  have hcut : t.roundQuote ((t.fill qs.sum).tradeVal * rate) ≤
      (t.fill qs.sum).tradeVal * rate := roundDown_le (mul_nonneg htotal hrate)
  have hvalue := mul_le_mul_of_nonneg_right hlt.le hrate
  change _ < (qs.map fun q => t.roundQuote ((t.fill q).tradeVal * rate)).sum at hloss
  unfold quoteUnit at hvalue ⊢
  linarith

end SettlementTerms

/-- An order settled in several fills at one price pays no more in trade value and in fees
than in one fill, and less than that only by the units of the quote currency that rounding
takes from each fill. -/
theorem split_settlement_bounds (t : SettlementTerms) (hprice : 0 ≤ t.payload.price)
    (htaker : 0 ≤ t.rates.taker) (hmaker : 0 ≤ t.rates.maker) (qs : List ℚ) (hne : qs ≠ []) (hpos :
    ∀ q ∈ qs, 0 < q) : (qs.map fun q => (t.fill q).tradeVal).sum ≤ (t.fill qs.sum).tradeVal ∧
    (t.fill qs.sum).tradeVal - qs.length * t.quoteUnit < (qs.map fun q => (t.fill q).tradeVal).sum ∧
    (qs.map fun q => (t.fill q).takerFeeAmt).sum ≤ (t.fill qs.sum).takerFeeAmt ∧
    (t.fill qs.sum).takerFeeAmt - (qs.map fun q => (t.fill q).takerFeeAmt).sum < (qs.length
    + t.rates.taker * qs.length) * t.quoteUnit ∧ (qs.map fun q => (t.fill q).makerFeeAmt).sum ≤
    (t.fill qs.sum).makerFeeAmt ∧ (t.fill qs.sum).makerFeeAmt - (qs.map fun q
    => (t.fill q).makerFeeAmt).sum < (qs.length + t.rates.maker * qs.length) * t.quoteUnit := by
  obtain ⟨hvalue, hvalueLt⟩ := sum_tradeVal_bounds hprice hne hpos
  obtain ⟨htakerLe, htakerLt⟩ := sum_fee_bounds hprice hne hpos htaker
  obtain ⟨hmakerLe, hmakerLt⟩ := sum_fee_bounds hprice hne hpos hmaker
  exact ⟨hvalue, hvalueLt, htakerLe, htakerLt, hmakerLe, hmakerLt⟩

/-- One unit at 100, filled in thirds. -/
theorem three_fills_bounds : ([1 / 3, 1 / 3, 1 / 3].map fun q => (SettlementTerms.fill
    ⟨samplePayload .buy, sampleAssets, feeRates, false⟩ q).tradeVal).sum ≤ (SettlementTerms.fill
    ⟨samplePayload .buy, sampleAssets, feeRates, false⟩ [1 / 3, 1 / 3, 1 / 3].sum).tradeVal :=
  (split_settlement_bounds ⟨samplePayload .buy, sampleAssets, feeRates, false⟩ (by decide +kernel)
    (by decide +kernel) (by decide +kernel) [1 / 3, 1 / 3, 1 / 3] (by simp)
    (by decide +kernel)).1

end MetherCEX
