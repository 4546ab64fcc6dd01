import MetherCEX.Engine.Types
import MetherCEX.Lib.Checks
import MetherCEX.Lib.Decimal
import MetherCEX.Lib.Tally

/-!
# The settlement of one event

`processSettlementEventRow` turns one fill of the engine into balances, ledger entries and a trade
record.
-/

namespace MetherCEX

open Checks Decimal Tally List

abbrev CurrencyId := ℕ

/-- A row of `user_balances` of the trading account. -/
structure Bucket where
  available : ℚ
  locked : ℚ
  deriving DecidableEq

def Bucket.total (b : Bucket) : ℚ := b.available + b.locked

/-- The trading balances; a row that does not exist reads as zero. -/
abbrev Balances := UserId → CurrencyId → Bucket

def Balances.set (bal : Balances) (u : UserId) (c : CurrencyId) (b : Bucket) : Balances :=
  fun u' c' => if u' = u ∧ c' = c then b else bal u' c'

/-- The payload of an event after `normalizeSettlementPayload`. -/
structure EnginePayload where
  symbol : Market
  price : ℚ
  qty : ℚ
  takerOrderId : OrderId
  makerOrderId : OrderId
  takerUserId : UserId
  makerUserId : UserId
  takerSide : Side
  deriving DecidableEq

/-- A row of `spot_markets`. -/
structure MarketRow where
  symbol : Market
  baseAsset : String
  quoteAsset : String
  baseCurrencyId : Option CurrencyId
  quoteCurrencyId : Option CurrencyId
  pricePrecision : Option ℕ
  qtyPrecision : Option ℕ
  deriving DecidableEq

/-- A row of `currencies`. -/
structure Currency where
  id : CurrencyId
  symbol : String
  decimals : ℕ
  deriving DecidableEq

structure MarketAssets where
  base : String
  quote : String
  baseCurrencyId : CurrencyId
  quoteCurrencyId : CurrencyId
  pricePrecision : ℕ
  qtyPrecision : ℕ
  quotePrecision : ℕ
  deriving DecidableEq

structure FeeRates where
  taker : ℚ
  maker : ℚ
  deriving DecidableEq

/-- `TAKER_FEE_RATE` and `MAKER_FEE_RATE`. -/
def feeRates : FeeRates := ⟨1 / 1000, 1 / 2000⟩

/-- What the settlement of an event reads besides the event and the balances: the market
tables, the fee settings, and which users and orders exist. -/
structure SettlementContext where
  markets : List MarketRow
  currencies : List Currency
  rates : FeeRates
  makerRebatesEnabled : Bool
  userExists : UserId → Bool
  orderExists : OrderId → Bool

inductive SettlementError
  | settlementPayload
  | marketNotFound
  | marketCurrencyNotFound
  | invariantViolation
  | feeInvariantViolation
  | selfTradeRejected
  | settlementUserNotFound
  | insufficientLockedFunds
  | insufficientFundsForFee
  | negativeBalance
  | orderInvariantViolation
  deriving DecidableEq

def isFatalError : SettlementError → Bool
  | .settlementUserNotFound => false
  | _ => true

def SettlementContext.currencyBySymbol (ctx : SettlementContext) (asset : String) :
    Option CurrencyId :=
  (ctx.currencies.find? (fun c => c.symbol.toUpper = asset.toUpper)).map (·.id)

def SettlementContext.decimals (ctx : SettlementContext) (id : CurrencyId) : Option ℕ :=
  (ctx.currencies.find? (fun c => c.id = id)).map (·.decimals)

def resolveMarketAssets (ctx : SettlementContext) (symbol : Market) :
    Except SettlementError MarketAssets := do
  let row ← orRefuse (ctx.markets.find? (fun m => m.symbol = symbol)) .marketNotFound
  let base ← orRefuse (row.baseCurrencyId <|> ctx.currencyBySymbol row.baseAsset)
    .marketCurrencyNotFound
  let quote ← orRefuse (row.quoteCurrencyId <|> ctx.currencyBySymbol row.quoteAsset)
    .marketCurrencyNotFound
  pure
    { base := row.baseAsset
      quote := row.quoteAsset
      baseCurrencyId := base
      quoteCurrencyId := quote
      pricePrecision := row.pricePrecision.getD 8
      qtyPrecision := row.qtyPrecision.getD 8
      quotePrecision := (row.quoteCurrencyId.bind ctx.decimals).getD 8 }

/-- The record `assetToCurrency`: where both assets have one name, the quote currency
overwrites the base currency. -/
def MarketAssets.assetToCurrency (m : MarketAssets) (asset : String) : CurrencyId :=
  if asset = m.quote then m.quoteCurrencyId else m.baseCurrencyId

def MarketAssets.Distinct (m : MarketAssets) : Prop :=
  m.base ≠ m.quote ∧ m.baseCurrencyId ≠ m.quoteCurrencyId
  deriving Decidable

@[simp] theorem MarketAssets.assetToCurrency_quote (m : MarketAssets) :
    m.assetToCurrency m.quote = m.quoteCurrencyId := if_pos rfl

theorem MarketAssets.Distinct.assetToCurrency_base {m : MarketAssets} (h : m.Distinct) :
    m.assetToCurrency m.base = m.baseCurrencyId := if_neg h.1

def tradeValue (price qty : ℚ) : ℚ := price * qty

def takerFee (rates : FeeRates) (tradeVal : ℚ) : ℚ := tradeVal * rates.taker

def makerFee (rates : FeeRates) (tradeVal : ℚ) : ℚ := tradeVal * rates.maker

structure SettlementTerms where
  payload : EnginePayload
  market : MarketAssets
  rates : FeeRates
  makerRebatesEnabled : Bool
  deriving DecidableEq

/-- A line of `computeSettlementLedgerDeltasFromPayload`. -/
structure LedgerDelta where
  userId : UserId
  asset : String
  delta : ℚ
  deriving DecidableEq

/-- A row of `settlement_ledger_entries`. -/
structure LedgerEntry where
  settlementEventId : ℕ
  userId : UserId
  asset : String
  currencyId : CurrencyId
  delta : ℚ
  deriving DecidableEq

structure BalanceUpdate where
  userId : UserId
  currencyId : CurrencyId
  available : ℚ
  locked : ℚ
  deriving DecidableEq

/-- A row of `settlement_trades`. -/
structure SettlementTrade where
  symbol : Market
  price : ℚ
  qty : ℚ
  quoteQty : ℚ
  takerUserId : UserId
  makerUserId : UserId
  takerOrderId : OrderId
  makerOrderId : OrderId
  takerFee : ℚ
  makerFee : ℚ
  deriving DecidableEq

structure SettlementEffect where
  entries : List LedgerEntry
  updates : List BalanceUpdate
  trades : List SettlementTrade
  deriving DecidableEq

namespace SettlementTerms

variable (t : SettlementTerms)

def takerId : UserId := t.payload.takerUserId

def makerId : UserId := t.payload.makerUserId

def roundQuote (x : ℚ) : ℚ := roundDown t.market.quotePrecision x

def price : ℚ := roundDown t.market.pricePrecision t.payload.price

def qty : ℚ := roundDown t.market.qtyPrecision t.payload.qty

def tradeVal : ℚ := t.roundQuote (tradeValue t.payload.price t.payload.qty)

def takerFeeAmt : ℚ := t.roundQuote (takerFee t.rates t.tradeVal)

def makerFeeAmt : ℚ := t.roundQuote (makerFee t.rates t.tradeVal)

def makerQuoteNetCredit : ℚ :=
  t.roundQuote (if t.makerRebatesEnabled then t.tradeVal + t.makerFeeAmt
    else t.tradeVal - t.makerFeeAmt)

def takerQuoteNetCredit : ℚ := t.roundQuote (t.tradeVal - t.takerFeeAmt)

def makerFeeForDb : ℚ := if t.makerRebatesEnabled then -t.makerFeeAmt else t.makerFeeAmt

def feesTooHigh : Prop :=
  if t.makerRebatesEnabled then t.tradeVal < t.takerFeeAmt
  else t.tradeVal < t.takerFeeAmt + t.makerFeeAmt
  deriving Decidable

def computeSettlementLedgerDeltasFromPayload : List LedgerDelta :=
  match t.payload.takerSide with
  | .buy =>
    [⟨t.takerId, t.market.base, t.qty⟩,
     ⟨t.takerId, t.market.quote, -t.tradeVal - t.takerFeeAmt⟩,
     ⟨t.makerId, t.market.base, -t.qty⟩,
     ⟨t.makerId, t.market.quote, t.makerQuoteNetCredit⟩]
  | .sell =>
    [⟨t.takerId, t.market.base, -t.qty⟩,
     ⟨t.takerId, t.market.quote, t.takerQuoteNetCredit⟩,
     ⟨t.makerId, t.market.base, t.qty⟩,
     ⟨t.makerId, t.market.quote, -t.tradeVal - t.makerFeeAmt⟩]

def entries (id : ℕ) : List LedgerEntry :=
  t.computeSettlementLedgerDeltasFromPayload.map fun d =>
    ⟨id, d.userId, d.asset, t.market.assetToCurrency d.asset, d.delta⟩

variable (bal : Balances)

def getBal (userId : UserId) (asset : String) : Bucket :=
  bal userId (t.market.assetToCurrency asset)

def pairs : List (UserId × String) :=
  [(t.takerId, t.market.base), (t.takerId, t.market.quote),
   (t.makerId, t.market.base), (t.makerId, t.market.quote)]

def lockedTooSmall : Prop :=
  match t.payload.takerSide with
  | .buy => (t.getBal bal t.takerId t.market.quote).locked < t.tradeVal ∨
      (t.getBal bal t.makerId t.market.base).locked < t.qty
  | .sell => (t.getBal bal t.takerId t.market.base).locked < t.qty ∨
      (t.getBal bal t.makerId t.market.quote).locked < t.tradeVal

def cannotPayFee : Prop :=
  match t.payload.takerSide with
  | .buy => (t.getBal bal t.takerId t.market.quote).available < t.takerFeeAmt ∨
      t.makerRebatesEnabled = false ∧
        (t.getBal bal t.makerId t.market.quote).available + t.tradeVal < t.makerFeeAmt
  | .sell => (t.getBal bal t.takerId t.market.quote).available + t.tradeVal < t.takerFeeAmt ∨
      t.makerRebatesEnabled = false ∧
        (t.getBal bal t.makerId t.market.quote).available < t.makerFeeAmt

instance : Decidable (t.lockedTooSmall bal) := by
  dsimp only [lockedTooSmall]
  cases t.payload.takerSide <;> infer_instance

instance : Decidable (t.cannotPayFee bal) := by
  dsimp only [cannotPayFee]
  cases t.payload.takerSide <;> infer_instance

def baseUpdate (userId : UserId) (dAvailable dLocked : ℚ) : BalanceUpdate :=
  ⟨userId, t.market.baseCurrencyId, (t.getBal bal userId t.market.base).available + dAvailable,
    (t.getBal bal userId t.market.base).locked + dLocked⟩

def quoteUpdate (userId : UserId) (dAvailable dLocked : ℚ) : BalanceUpdate :=
  ⟨userId, t.market.quoteCurrencyId,
    (t.getBal bal userId t.market.quote).available + dAvailable,
    (t.getBal bal userId t.market.quote).locked + dLocked⟩

def updates : List BalanceUpdate :=
  match t.payload.takerSide with
  | .buy =>
    [t.baseUpdate bal t.takerId t.qty 0,
     t.quoteUpdate bal t.takerId (-t.takerFeeAmt) (-t.tradeVal),
     t.baseUpdate bal t.makerId 0 (-t.qty),
     t.quoteUpdate bal t.makerId t.makerQuoteNetCredit 0]
  | .sell =>
    [t.baseUpdate bal t.takerId 0 (-t.qty),
     t.quoteUpdate bal t.takerId t.takerQuoteNetCredit 0,
     t.baseUpdate bal t.makerId t.qty 0,
     -- the maker pays the fee here also when rebates are on
     t.quoteUpdate bal t.makerId (-t.makerFeeAmt) (-t.tradeVal)]

def trade : SettlementTrade :=
  { symbol := t.payload.symbol
    price := t.price
    qty := t.qty
    quoteQty := t.tradeVal
    takerUserId := t.takerId
    makerUserId := t.makerId
    takerOrderId := t.payload.takerOrderId
    makerOrderId := t.payload.makerOrderId
    takerFee := t.takerFeeAmt
    makerFee := t.makerFeeForDb }

end SettlementTerms

def applyUpdates (bal : Balances) (us : List BalanceUpdate) : Balances :=
  us.foldl (fun bal u => bal.set u.userId u.currencyId ⟨u.available, u.locked⟩) bal

def settle (ctx : SettlementContext) (id : ℕ) (p : EnginePayload) (bal : Balances) :
    Except SettlementError SettlementEffect := do
  let market ← resolveMarketAssets ctx p.symbol
  let t : SettlementTerms := ⟨p, market, ctx.rates, ctx.makerRebatesEnabled⟩
  refuseIf (p.qty < 0) .invariantViolation
  refuseIf t.feesTooHigh .feeInvariantViolation
  refuseIf (t.takerId = t.makerId) .selfTradeRejected
  refuseIf (¬ (ctx.userExists t.takerId ∧ ctx.userExists t.makerId)) .settlementUserNotFound
  refuseIf (t.lockedTooSmall bal) .insufficientLockedFunds
  refuseIf (t.cannotPayFee bal) .insufficientFundsForFee
  refuseIf (∃ u ∈ t.updates bal, u.available < 0 ∨ u.locked < 0) .negativeBalance
  refuseIf (¬ (ctx.orderExists p.takerOrderId ∧ ctx.orderExists p.makerOrderId))
    .orderInvariantViolation
  pure ⟨t.entries id, t.updates bal, [t.trade]⟩

/-- `ledger` is the ledger as the transaction sees it. -/
def processSettlementEventRow (ctx : SettlementContext) (ledger : List LedgerEntry) (id : ℕ)
    (p : EnginePayload) (bal : Balances) : Except SettlementError SettlementEffect :=
  if ∃ e ∈ ledger, e.settlementEventId = id then do
    let _ ← resolveMarketAssets ctx p.symbol
    pure ⟨[], [], []⟩
  else settle ctx id p bal

structure Settles (ctx : SettlementContext) (id : ℕ) (t : SettlementTerms) (bal : Balances)
    (eff : SettlementEffect) : Prop where
  market : resolveMarketAssets ctx t.payload.symbol = .ok t.market
  rates : t.rates = ctx.rates
  rebates : t.makerRebatesEnabled = ctx.makerRebatesEnabled
  users : t.takerId ≠ t.makerId
  effect : eff = ⟨t.entries id, t.updates bal, [t.trade]⟩

variable {bal : Balances} {us : List BalanceUpdate}

theorem settles_of_settle {ctx : SettlementContext} {id : ℕ} {p : EnginePayload}
    {eff : SettlementEffect} (h : settle ctx id p bal = .ok eff) :
    ∃ t : SettlementTerms, t.payload = p ∧ Settles ctx id t bal eff := by
  simp only [settle, bind_eq_ok, refuseIf_eq_ok, exists_const, pure_eq_ok] at h
  obtain ⟨market, hmarket, -, -, husers, -, -, -, -, -, rfl⟩ := h
  exact ⟨⟨p, market, ctx.rates, ctx.makerRebatesEnabled⟩, rfl, hmarket, rfl, rfl, husers, rfl⟩

def ledgerSum (es : List LedgerEntry) (u : UserId) (c : CurrencyId) : ℚ :=
  tally (fun e : LedgerEntry => (e.userId, e.currencyId)) (·.delta) es (u, c)

@[simp] theorem ledgerSum_nil (u : UserId) (c : CurrencyId) : ledgerSum [] u c = 0 := rfl

theorem Balances.set_of_ne {u u' : UserId} {c c' : CurrencyId} {b : Bucket}
    (h : (u', c') ≠ (u, c)) : bal.set u c b u' c' = bal u' c' := by
  rw [Balances.set, if_neg]
  rintro ⟨rfl, rfl⟩
  exact h rfl

def BalanceUpdate.key (x : BalanceUpdate) : UserId × CurrencyId := (x.userId, x.currencyId)

structure BalanceUpdate.Follows (bal : Balances) (x : BalanceUpdate) (e : LedgerEntry) :
    Prop where
  key : x.key = (e.userId, e.currencyId)
  total : x.available + x.locked = (bal x.userId x.currencyId).total + e.delta

theorem applyUpdates_of_not_mem {u : UserId} {c : CurrencyId} (h : (u, c) ∉ us.map (·.key)) :
    applyUpdates bal us u c = bal u c := by
  induction us generalizing bal with
  | nil => rfl
  | cons x us ih =>
    rw [map_cons, mem_cons, not_or] at h
    rw [applyUpdates, foldl_cons, ← applyUpdates, ih h.2]
    exact Balances.set_of_ne h.1

theorem applyUpdates_of_mem (hkeys : (us.map (·.key)).Nodup) {x : BalanceUpdate} (hx : x ∈ us) :
    applyUpdates bal us x.userId x.currencyId = ⟨x.available, x.locked⟩ := by
  induction us generalizing bal with
  | nil => cases hx
  | cons y us ih =>
    rw [map_cons, nodup_cons] at hkeys
    rw [applyUpdates, foldl_cons, ← applyUpdates]
    rcases mem_cons.mp hx with rfl | hx
    · rw [applyUpdates_of_not_mem hkeys.1, Balances.set, if_pos ⟨rfl, rfl⟩]
    · exact ih hkeys.2 hx

/-- Updates of different rows change every measure `f` of a balance by what they change it in their
own row. -/
theorem measure_applyUpdates (f : Bucket → ℚ) {read : Balances} (hkeys : (us.map (·.key)).Nodup)
    (hread : ∀ x ∈ us, bal x.userId x.currencyId = read x.userId x.currencyId) (u : UserId)
    (c : CurrencyId) : f (applyUpdates bal us u c) = f (bal u c) + tally BalanceUpdate.key
    (fun x => f ⟨x.available, x.locked⟩ - f (read x.userId x.currencyId)) us (u, c) := by
  induction us generalizing bal with
  | nil => simp [applyUpdates]
  | cons x us ih =>
    rw [map_cons, nodup_cons] at hkeys
    have hrest : ∀ y ∈ us, bal.set x.userId x.currencyId ⟨x.available, x.locked⟩
        y.userId y.currencyId = read y.userId y.currencyId := by
      intro y hy
      rw [Balances.set_of_ne, hread y (mem_cons_of_mem x hy)]
      intro hxy
      exact hkeys.1 (mem_map.mpr ⟨y, hy, hxy⟩)
    have hset : f (bal.set x.userId x.currencyId ⟨x.available, x.locked⟩ u c) = f (bal u c) +
        if x.key = (u, c) then f ⟨x.available, x.locked⟩ - f (read x.userId x.currencyId)
        else 0 := by
      by_cases hkey : x.key = (u, c)
      · obtain ⟨rfl, rfl⟩ := Prod.mk.inj hkey
        rw [if_pos hkey, Balances.set, if_pos ⟨rfl, rfl⟩, hread x mem_cons_self,
          add_sub_cancel]
      · rw [if_neg hkey, Balances.set_of_ne (Ne.symm hkey), add_zero]
    rw [applyUpdates, foldl_cons, ← applyUpdates, ih hkeys.2 hrest, hset, tally_cons,
      add_assoc]

theorem total_applyUpdates {es : List LedgerEntry} (h : List.Forall₂ (BalanceUpdate.Follows bal)
    us es) (hkeys : (us.map (·.key)).Nodup) (u : UserId) (c : CurrencyId) :
    (applyUpdates bal us u c).total = (bal u c).total + ledgerSum es u c := by
  rw [measure_applyUpdates Bucket.total hkeys fun _ _ => rfl]
  congr 1
  clear hkeys
  induction h with
  | nil => rfl
  | @cons x e us es hx h ih =>
    have hdelta : Bucket.total ⟨x.available, x.locked⟩ -
        (bal x.userId x.currencyId).total = e.delta := by
      rw [Bucket.total, hx.total, add_sub_cancel_left]
    rw [tally_cons, ledgerSum, tally_cons, ih, hx.key, hdelta]
    rfl

namespace SettlementTerms

variable {t : SettlementTerms} {bal : Balances}

theorem updates_keys (t : SettlementTerms) (bal : Balances) : (t.updates bal).map (·.key) =
    [(t.takerId, t.market.baseCurrencyId), (t.takerId, t.market.quoteCurrencyId),
    (t.makerId, t.market.baseCurrencyId), (t.makerId, t.market.quoteCurrencyId)] := by
  cases hside : t.payload.takerSide with
  | buy | sell => simp [updates, hside, BalanceUpdate.key, baseUpdate, quoteUpdate]

theorem updates_keys_nodup (hmarket : t.market.Distinct) (husers : t.takerId ≠ t.makerId) :
    ((t.updates bal).map (·.key)).Nodup := by
  rw [updates_keys]
  simp [hmarket.2, hmarket.2.symm, husers]

theorem baseUpdate_follows (hmarket : t.market.Distinct)
    {id : ℕ} {u : UserId} {a l d : ℚ} (h : a + l = d) : (t.baseUpdate bal u a l).Follows bal ⟨id,
    u, t.market.base, t.market.assetToCurrency t.market.base, d⟩ := by
  constructor
  · rw [hmarket.assetToCurrency_base]
    rfl
  · simp only [baseUpdate, getBal, hmarket.assetToCurrency_base, Bucket.total, ← h]
    ring

theorem quoteUpdate_follows {id : ℕ} {u : UserId} {a l d : ℚ} (h : a + l = d) : (t.quoteUpdate
    bal u a l).Follows bal ⟨id, u, t.market.quote, t.market.assetToCurrency t.market.quote, d⟩ := by
  constructor
  · rw [t.market.assetToCurrency_quote]
    rfl
  · simp only [quoteUpdate, getBal, t.market.assetToCurrency_quote, Bucket.total, ← h]
    ring

/-- The updates and the ledger entries are computed apart, and agree line by line. -/
theorem updates_follow (hmarket : t.market.Distinct) (bal : Balances) (id : ℕ) :
    List.Forall₂ (BalanceUpdate.Follows bal) (t.updates bal) (t.entries id) := by
  cases hside : t.payload.takerSide with
  | buy | sell =>
    simp only [updates, entries, computeSettlementLedgerDeltasFromPayload, hside,
      map_cons, map_nil]
    apply List.Forall₂.cons (baseUpdate_follows hmarket (by ring))
    apply List.Forall₂.cons (quoteUpdate_follows (by ring))
    apply List.Forall₂.cons (baseUpdate_follows hmarket (by ring))
    apply List.Forall₂.cons (quoteUpdate_follows (by ring))
    exact List.Forall₂.nil

theorem total_updates (hmarket : t.market.Distinct)
    (husers : t.takerId ≠ t.makerId) (bal : Balances) (id : ℕ) (u : UserId) (c : CurrencyId) :
    (applyUpdates bal (t.updates bal) u c).total = (bal u c).total + ledgerSum (t.entries id) u c :=
  total_applyUpdates (updates_follow hmarket bal id) (updates_keys_nodup hmarket husers) u c

end SettlementTerms

end MetherCEX
