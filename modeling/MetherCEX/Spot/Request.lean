import MetherCEX.Engine.Types
import MetherCEX.Lib.Checks
import MetherCEX.Lib.Decimal

/-!
# The checks of the order route

`POST /spot/order` (`spot.fastify.ts`) reads the body of a request, looks up the market, rounds
the numbers to its precisions and refuses what it cannot place.
-/

namespace MetherCEX

open Checks Decimal

inductive OrderKind
  | market
  | limit
  | stopLoss
  | stopLimit
  | trailingStopMarket
  deriving DecidableEq

inductive TimeInForce
  | gtc
  | ioc
  | fok
  deriving DecidableEq

/-- A number in a request body, as the decimal constructor reads it. -/
inductive DecimalText
  | blank
  | malformed
  | nan
  | infinite
  | finite (q : ℚ)
  deriving DecidableEq

def DecimalText.finite? : DecimalText → Option ℚ
  | .finite q => some q
  | .blank | .malformed | .nan | .infinite => none

structure Reject where
  status : ℕ
  code : String
  message : String
  deriving DecidableEq

namespace Reject

def invalidOrder (message : String) : Reject := ⟨400, "INVALID_ORDER", message⟩

def ocoNotSupported : Reject :=
  ⟨400, "OCO_NOT_SUPPORTED", "OCO orders are currently not supported"⟩

def marketNotFound : Reject := ⟨404, "MARKET_NOT_FOUND", "Market not found"⟩

def marketPaused : Reject :=
  ⟨400, "MARKET_PAUSED", "Trading is temporarily paused for this market"⟩

def marketDisabled : Reject := ⟨400, "MARKET_DISABLED", "Market is not available"⟩

def marketNotReady : Reject := ⟨400, "MARKET_NOT_READY", "Market assets not configured"⟩

def minQty (text : String) : Reject := ⟨400, "MIN_QTY", "Minimum quantity is " ++ text⟩

def minNotional (text : String) : Reject := ⟨400, "MIN_NOTIONAL", "Minimum notional is " ++ text⟩

def noLiquidity : Reject := ⟨400, "NO_LIQUIDITY", "No liquidity for market order"⟩

/-- The advice names the direction in which the price would have to move. -/
def postOnlyWouldTake : Side → Reject
  | .buy => ⟨400, "POST_ONLY_WOULD_TAKE",
      "Post-only order would immediately match. Use a lower price or remove post_only."⟩
  | .sell => ⟨400, "POST_ONLY_WOULD_TAKE",
      "Post-only order would immediately match. Use a higher price or remove post_only."⟩

def fokNotFillable : Reject :=
  ⟨400, "FOK_NOT_FILLABLE", "Fill-or-Kill order could not be fully filled"⟩

end Reject

structure PlaceBody where
  market : String
  side : String
  type : String
  ocoGroupId : String
  timeInForce : String
  price : DecimalText
  quantity : DecimalText
  stopPrice : DecimalText
  trailingDelta : DecimalText
  displayQuantity : DecimalText
  postOnly : Bool
  reduceOnly : Bool
  deriving DecidableEq

inductive MarketStatus
  | active
  | maintenance
  | other
  deriving DecidableEq

/-- The columns of `spot_markets` the route reads, with the currency ids it resolves. -/
structure SpotMarket where
  symbol : Market
  status : MarketStatus
  minQty : ℚ
  minQtyText : String
  minNotional : ℚ
  minNotionalText : String
  pricePrecision : ℕ
  qtyPrecision : ℕ
  baseCurrencyId : Option ℕ
  quoteCurrencyId : Option ℕ
  deriving DecidableEq

structure RouteConfig where
  icebergOrdersEnabled : Bool
  deriving DecidableEq

section Body

def lowerCase (s : String) : String := String.ofList (s.toList.map Char.toLower)

def upperCase (s : String) : String := String.ofList (s.toList.map Char.toUpper)

def marketSymbol (s : String) : Market :=
  String.ofList ((upperCase s).toList.map fun c => if c = '-' then '_' else c)

def Side.ofText? (s : String) : Option Side :=
  if lowerCase s = "buy" then some .buy else if lowerCase s = "sell" then some .sell else none

/-- The type of an order; a missing one is `limit`. -/
def OrderKind.ofText? (s : String) : Option OrderKind :=
  if s = "" ∨ lowerCase s = "limit" then some .limit
  else if lowerCase s = "market" then some .market
  else if lowerCase s = "stop_loss" then some .stopLoss
  else if lowerCase s = "stop_limit" then some .stopLimit
  else if lowerCase s = "trailing_stop_market" then some .trailingStopMarket
  else none

/-- Whatever is not one of the three texts is `gtc`. -/
def TimeInForce.ofText (s : String) : TimeInForce :=
  if lowerCase s = "ioc" then .ioc else if lowerCase s = "fok" then .fok else .gtc

def OrderKind.isStop : OrderKind → Bool
  | .stopLoss | .stopLimit | .trailingStopMarket => true
  | .market | .limit => false

def OrderKind.hasPrice : OrderKind → Bool
  | .limit | .stopLimit => true
  | .market | .stopLoss | .trailingStopMarket => false

structure ParsedBody where
  market : Market
  side : Side
  kind : OrderKind
  timeInForce : TimeInForce
  quantity : ℚ
  deriving DecidableEq

/-- The quantity of an iceberg order that is shown, where such orders are enabled. -/
def checkDisplayQuantity (cfg : RouteConfig) (body : PlaceBody) (kind : OrderKind)
    (quantity : ℚ) : Except Reject Unit :=
  if cfg.icebergOrdersEnabled ∧ kind = .limit then
    match body.displayQuantity with
    | .blank => .ok ()
    | .malformed => .error (.invalidOrder "Invalid display_quantity")
    | .nan | .infinite => .error (.invalidOrder
        "display_quantity must be positive and <= quantity for iceberg orders")
    | .finite q => refuseIf (q ≤ 0 ∨ quantity < q) (.invalidOrder
        "display_quantity must be positive and <= quantity for iceberg orders")
  else .ok ()

def parseBody (cfg : RouteConfig) (body : PlaceBody) : Except Reject ParsedBody := do
  refuseIf (lowerCase body.type = "oco" ∨ body.ocoGroupId ≠ "") .ocoNotSupported
  let market := marketSymbol body.market
  let tif := TimeInForce.ofText body.timeInForce
  refuseIf (market = "") (.invalidOrder "Invalid market, side, or type")
  let side ← orRefuse (Side.ofText? body.side) (.invalidOrder "Invalid market, side, or type")
  let kind ← orRefuse (OrderKind.ofText? body.type)
    (.invalidOrder "Invalid market, side, or type")
  refuseIf ((kind = .stopLoss ∨ kind = .stopLimit) ∧ body.stopPrice = .blank)
    (.invalidOrder "Stop orders require stop_price")
  refuseIf (kind = .trailingStopMarket ∧ body.trailingDelta = .blank)
    (.invalidOrder "Trailing stop requires trailing_delta (e.g. 0.5 for 0.5%)")
  refuseIf (kind = .stopLimit ∧ body.price = .blank)
    (.invalidOrder "Stop-limit orders require price")
  refuseIf (body.postOnly = true ∧ kind ≠ .limit)
    (.invalidOrder "post_only is only allowed for limit orders")
  refuseIf (body.postOnly = true ∧ (tif = .ioc ∨ tif = .fok)) (.invalidOrder
    "post_only requires GTC (good-til-cancelled). IOC/FOK would execute immediately.")
  refuseIf (body.reduceOnly = true ∧ side = .buy)
    (.invalidOrder "reduce_only is not applicable for buy orders (spot only)")
  let quantity ← orRefuse body.quantity.finite? (.invalidOrder "Invalid quantity")
  refuseIf (quantity ≤ 0) (.invalidOrder "Invalid quantity")
  checkDisplayQuantity cfg body kind quantity
  return ⟨market, side, kind, tif, quantity⟩

end Body

/-- The price of a limit or stop-limit order, rounded; other kinds have none. -/
def checkPrice (m : SpotMarket) (kind : OrderKind) (price : DecimalText) (qtyRounded : ℚ) :
    Except Reject (Option ℚ) :=
  if kind.hasPrice then do
    let p ← orRefuse price.finite?
      (.invalidOrder "Limit/stop-limit orders require a valid price")
    let priceDec := roundDown m.pricePrecision p
    refuseIf (priceDec ≤ 0) (.invalidOrder "Limit/stop-limit orders require a valid price")
    refuseIf (roundDown m.pricePrecision (priceDec * qtyRounded) <
      roundDown m.pricePrecision m.minNotional) (.minNotional m.minNotionalText)
    return some priceDec
  else .ok none

def checkStopPrice (m : SpotMarket) (kind : OrderKind) (stopPrice : DecimalText) :
    Except Reject (Option ℚ) :=
  if kind = .stopLoss ∨ kind = .stopLimit then
    match stopPrice with
    | .finite p => do
        refuseIf (roundDown m.pricePrecision p ≤ 0) (.invalidOrder "stop_price must be positive")
        return some (roundDown m.pricePrecision p)
    | .nan | .infinite => .error (.invalidOrder "stop_price must be positive")
    | .blank | .malformed => .error (.invalidOrder "Invalid stop_price")
  else .ok none

/-- The trailing delta in percent, rounded. What is not a number is neither too small nor
too large, so it passes. -/
def checkTrailingDelta (kind : OrderKind) (trailingDelta : DecimalText) :
    Except Reject DecimalText :=
  if kind = .trailingStopMarket then
    match trailingDelta with
    | .finite d => do
        refuseIf (roundDown 8 d ≤ 0 ∨ 100 < roundDown 8 d)
          (.invalidOrder "trailing_delta must be between 0 and 100 (percent)")
        return .finite (roundDown 8 d)
    | .nan => .ok .nan
    | .infinite => .error (.invalidOrder "trailing_delta must be between 0 and 100 (percent)")
    | .blank | .malformed => .error (.invalidOrder "Invalid trailing_delta")
  else .ok .blank

def checkMarket (markets : Market → Option SpotMarket) (symbol : Market) :
    Except Reject SpotMarket := do
  let m ← orRefuse (markets symbol) .marketNotFound
  match m.status with
  | .active => return m
  | .maintenance => .error .marketPaused
  | .other => .error .marketDisabled

/-- The best ask and the best bid of the order table, zero where there is none. -/
structure BestPrices where
  bestAsk : ℚ
  bestBid : ℚ
  deriving DecidableEq

/-- A post-only order would match at once, as the table tells. -/
def PostOnlyWouldTake (best : BestPrices) (side : Side) (price : ℚ) : Prop :=
  match side with
  | .buy => 0 < best.bestAsk ∧ best.bestAsk ≤ price
  | .sell => 0 < best.bestBid ∧ price ≤ best.bestBid

instance (best : BestPrices) : (side : Side) → (price : ℚ) →
    Decidable (PostOnlyWouldTake best side price)
  | .buy, price => inferInstanceAs (Decidable (0 < best.bestAsk ∧ best.bestAsk ≤ price))
  | .sell, price => inferInstanceAs (Decidable (0 < best.bestBid ∧ price ≤ best.bestBid))

structure CheckedOrder where
  userId : UserId
  market : Market
  side : Side
  kind : OrderKind
  timeInForce : TimeInForce
  price : Option ℚ
  stopPrice : Option ℚ
  trailingDelta : DecimalText
  qtyRounded : ℚ
  postOnly : Bool
  best : BestPrices
  deriving DecidableEq

def checkOrder (cfg : RouteConfig) (markets : Market → Option SpotMarket)
    (best : Market → BestPrices) (userId : UserId) (body : PlaceBody) :
    Except Reject CheckedOrder := do
  let parsed ← parseBody cfg body
  let m ← checkMarket markets parsed.market
  let qtyRounded := roundDown m.qtyPrecision parsed.quantity
  refuseIf (qtyRounded < roundDown m.qtyPrecision m.minQty) (.minQty m.minQtyText)
  let price ← checkPrice m parsed.kind body.price qtyRounded
  let stopPrice ← checkStopPrice m parsed.kind body.stopPrice
  let trailingDelta ← checkTrailingDelta parsed.kind body.trailingDelta
  refuseIf (m.baseCurrencyId = none ∨ m.quoteCurrencyId = none) .marketNotReady
  let best := best parsed.market
  refuseIf (parsed.side = .buy ∧ parsed.kind = .market ∧
    roundDown m.pricePrecision best.bestAsk ≤ 0) .noLiquidity
  refuseIf (body.postOnly = true ∧ parsed.kind = .limit ∧
    ∃ p ∈ price, PostOnlyWouldTake best parsed.side p) (.postOnlyWouldTake parsed.side)
  return ⟨userId, parsed.market, parsed.side, parsed.kind, parsed.timeInForce, price, stopPrice,
    trailingDelta, qtyRounded, body.postOnly, best⟩

variable {cfg : RouteConfig} {body : PlaceBody} {price : Option ℚ} {qty : ℚ}
  {markets : Market → Option SpotMarket}

theorem parseBody_eq_ok {parsed : ParsedBody} (h : parseBody cfg body = .ok parsed) :
    0 < parsed.quantity ∧
      (body.postOnly = true → parsed.kind = .limit ∧ parsed.timeInForce = .gtc) := by
  simp only [parseBody, bind_eq_ok, refuseIf_eq_ok, exists_const, pure_eq_ok] at h
  obtain ⟨-, -, side, -, kind, -, -, -, -, hkind, htif, -, quantity, -, hqty, -, -,
    rfl⟩ := h
  refine ⟨not_le.mp hqty, fun hpost => ⟨?_, ?_⟩⟩
  · exact not_not.mp fun hne => hkind ⟨hpost, hne⟩
  · cases hcase : TimeInForce.ofText body.timeInForce with
    | gtc => rfl
    | ioc => exact absurd ⟨hpost, .inl hcase⟩ htif
    | fok => exact absurd ⟨hpost, .inr hcase⟩ htif

variable {kind : OrderKind} {text : DecimalText} {m : SpotMarket}

theorem checkPrice_eq_ok (h : checkPrice m kind text qty = .ok price) :
    price.isSome = kind.hasPrice := by
  rw [checkPrice] at h
  split_ifs at h with hprice
  · simp only [bind_eq_ok, refuseIf_eq_ok, exists_const, pure_eq_ok] at h
    obtain ⟨p, -, -, -, rfl⟩ := h
    rw [hprice]
    rfl
  · cases h
    simpa using hprice

theorem onGrid_of_checkPrice (h : checkPrice m kind text qty = .ok price) :
    ∀ p ∈ price, OnGrid m.pricePrecision p := by
  intro p hp
  rw [checkPrice] at h
  split_ifs at h
  · simp only [bind_eq_ok, refuseIf_eq_ok, exists_const, pure_eq_ok] at h
    obtain ⟨q, -, -, -, rfl⟩ := h
    cases hp
    exact onGrid_roundDown _ q
  · cases h
    cases hp

theorem checkStopPrice_eq_ok {stopPrice : Option ℚ}
    (h : checkStopPrice m kind text = .ok stopPrice) : (∀ p ∈ stopPrice, OnGrid m.pricePrecision p)
    ∧ (kind = .stopLoss ∨ kind = .stopLimit → stopPrice.isSome = true) := by
  unfold checkStopPrice at h
  split_ifs at h with hkind
  · cases text with
    | finite p =>
      simp only [bind_eq_ok, refuseIf_eq_ok, exists_const, pure_eq_ok] at h
      obtain ⟨-, rfl⟩ := h
      refine ⟨fun q hq => ?_, fun _ => rfl⟩
      cases hq
      exact onGrid_roundDown _ p
    | _ => cases h
  · cases h
    refine ⟨fun p hp => ?_, fun h => absurd h hkind⟩
    cases hp

theorem checkMarket_eq_ok {symbol : Market} (h : checkMarket markets symbol = .ok m) :
    markets symbol = some m := by
  simp only [checkMarket, bind_eq_ok] at h
  obtain ⟨m', hm', hstatus⟩ := h
  cases hlookup : markets symbol with
  | none =>
    rw [hlookup] at hm'
    cases hm'
  | some m'' =>
    rw [hlookup] at hm'
    cases hm'
    split at hstatus
    · cases hstatus
      rfl
    · cases hstatus
    · cases hstatus

structure CheckedOrder.Valid (c : CheckedOrder) : Prop where
  qty_nonneg : 0 ≤ c.qtyRounded
  price_iff : c.price.isSome = c.kind.hasPrice
  post_only : c.postOnly = true → c.kind = .limit ∧ c.timeInForce = .gtc
  post_only_price : c.postOnly = true → ∀ p, c.price = some p →
    ¬ PostOnlyWouldTake c.best c.side p

theorem checkOrder_valid {best : Market → BestPrices} {userId : UserId} {c : CheckedOrder}
    (h : checkOrder cfg markets best userId body = .ok c) : c.Valid := by
  simp only [checkOrder, bind_eq_ok, refuseIf_eq_ok, exists_const, pure_eq_ok] at h
  obtain ⟨parsed, hparsed, m, -, -, price, hprice, stopPrice, -, delta, -, -, -, hpost, rfl⟩ := h
  obtain ⟨hqty, hkind⟩ := parseBody_eq_ok hparsed
  refine ⟨roundDown_nonneg hqty.le, checkPrice_eq_ok hprice, hkind, fun hp p hsome htake => ?_⟩
  exact hpost ⟨hp, (hkind hp).1, p, hsome, htake⟩

end MetherCEX
