import MetherCEX.Lib.Tally
import MetherCEX.Spot.Locks
import MetherCEX.Spot.Traded

/-!
# Orders and the funds behind them

`FundsState` is the order system together with the trading balances.
-/

namespace MetherCEX

open Decimal Tally

def MatchEvent.payload (ev : MatchEvent) : EnginePayload where
  symbol := ev.market
  price := ev.price
  qty := ev.quantity
  takerOrderId := ev.takerOrderId
  makerOrderId := ev.makerOrderId
  takerUserId := ev.takerUserId
  makerUserId := ev.makerUserId
  takerSide := ev.takerSide

/-- The settings of the route and of the settlement, which read the same table of
markets. -/
structure FundsConfig where
  route : RouteConfig
  markets : Market → Option SpotMarket
  slippageBps : ℚ
  slippage_nonneg : 0 ≤ slippageBps
  context : SettlementContext
  agree : ∀ symbol assets, resolveMarketAssets context symbol = .ok assets →
    ∃ m, markets symbol = some m ∧ m.qtyPrecision = assets.qtyPrecision ∧
      m.baseCurrencyId = some assets.baseCurrencyId ∧
      m.quoteCurrencyId = some assets.quoteCurrencyId

namespace FundsConfig

variable (cfg : FundsConfig)

def lockCurrency (market : Market) (side : Side) : Option CurrencyId :=
  (cfg.markets market).bind fun m =>
    match side with
    | .buy => m.quoteCurrencyId
    | .sell => m.baseCurrencyId

def lockAmount (c : CheckedOrder) : ℚ :=
  ((cfg.markets c.market).map (c.lockAmount cfg.slippageBps)).getD 0

end FundsConfig

/-- What a settlement has debited from the locked balance for an order. -/
structure SettledFill where
  orderId : OrderId
  debit : ℚ
  fillQty : ℚ
  deriving DecidableEq

structure FundsState where
  spot : SpotState
  bal : Balances
  fills : List SettledFill
  unlocks : List (OrderId × ℚ)

namespace FundsState

def init (bal : Balances) : FundsState := ⟨.init, bal, [], []⟩

def debited (s : FundsState) (id : OrderId) : ℚ :=
  tally SettledFill.orderId SettledFill.debit s.fills id

def settledQty (s : FundsState) (id : OrderId) : ℚ :=
  tally SettledFill.orderId SettledFill.fillQty s.fills id

def unlocked (s : FundsState) (id : OrderId) : ℚ := tally Prod.fst Prod.snd s.unlocks id

/-- `lockTradingBalance`: the amount goes from the available balance to the locked one,
unless there is too little. -/
def lockTradingBalance (bal : Balances) (userId : UserId) (currencyId : CurrencyId)
    (amount : ℚ) : Option Balances :=
  let b := bal userId currencyId
  if b.available < amount then none
  else some (bal.set userId currencyId ⟨b.available - amount, b.locked + amount⟩)

/-- `unlockTradingBalance`: the other way round. The locked balance is that of all orders of
the user. -/
def unlockTradingBalance (bal : Balances) (userId : UserId) (currencyId : CurrencyId)
    (amount : ℚ) : Option Balances :=
  let b := bal userId currencyId
  if b.locked < amount then none
  else some (bal.set userId currencyId ⟨b.available + amount, b.locked - amount⟩)

section Steps

variable (cfg : FundsConfig)

/-- The transaction of the route locks the funds; without them the request is refused. -/
def commit (s : FundsState) (i : ℕ) (id : OrderId) (nowMs : ℕ) : FundsState :=
  match s.spot.checked[i]? with
  | none => s
  | some c =>
    match (cfg.lockCurrency c.market c.side).bind fun currencyId =>
        lockTradingBalance s.bal c.userId currencyId (cfg.lockAmount c) with
    | none => { s with spot := { s.spot with checked := s.spot.checked.eraseIdx i } }
    | some bal =>
      if id ∈ s.spot.orders.map OrderRow.id ∨ c.fokNotFillable s.spot.orders then
        { s with spot := s.spot.commit i id nowMs }
      else { s with spot := s.spot.commit i id nowMs, bal := bal }

/-- The transaction of the route after a failed call: the row is cancelled and the whole lock is
given back. -/
def engineFailed (s : FundsState) (f : Forwarded) : FundsState :=
  match f.restore, s.spot.accepted.find? fun a => a.1 == f.order.id with
  | none, some (id, c) =>
    match (cfg.lockCurrency c.market c.side).bind fun currencyId =>
        unlockTradingBalance s.bal c.userId currencyId (cfg.lockAmount c) with
    | none => s
    | some bal =>
      { s with
        spot := s.spot.engineFailed f
        bal := bal
        unlocks := s.unlocks ++ [(id, cfg.lockAmount c)] }
  | _, _ => { s with spot := s.spot.engineFailed f }

def place (s : FundsState) (i : ℕ) (clock : ℕ → ℕ) (answer : EngineAnswer) : FundsState :=
  match s.spot.forwarded[i]? with
  | none => s
  | some f =>
    let spot := { s.spot with forwarded := s.spot.forwarded.eraseIdx i }
    match answer with
    | .ok => { s with spot := s.spot.place i clock .ok }
    | .refused => engineFailed cfg { s with spot := spot } f
    | .lost => engineFailed cfg { s with spot := spot.placeOnEngine clock f.order } f

/-- The transaction of a cancel route: the row is marked and the funds are unlocked. -/
def commitCancel (s : FundsState) (i : ℕ) : FundsState :=
  match s.spot.cancelling[i]? with
  | some ⟨r, true⟩ =>
    match (cfg.lockCurrency r.market r.side).bind fun currencyId =>
        unlockTradingBalance s.bal r.userId currencyId r.unlockAmount with
    | none => { s with spot := { s.spot with cancelling := s.spot.cancelling.eraseIdx i } }
    | some bal =>
      { s with
        spot := s.spot.commitCancel i
        bal := bal
        unlocks := s.unlocks ++ [(r.id, r.unlockAmount)] }
  | _ => s

/-- What the settlement reads besides the event and the balances, with the orders of the
table. -/
def settlementContext (s : FundsState) : SettlementContext :=
  { cfg.context with orderExists := fun id => decide (id ∈ s.spot.orders.map OrderRow.id) }

def settledFills (assets : MarketAssets) (ev : MatchEvent) : List SettledFill :=
  let fillQty := roundDown assets.qtyPrecision ev.quantity
  let debit := fun side =>
    fillDebit assets.qtyPrecision assets.quotePrecision side ev.price ev.quantity
  [⟨ev.takerOrderId, debit ev.takerSide, fillQty⟩,
    ⟨ev.makerOrderId, debit ev.takerSide.opposite, fillQty⟩]

def settle (s : FundsState) (i : ℕ) : FundsState :=
  match s.spot.unsettled[i]? with
  | none => s
  | some ev =>
    match resolveMarketAssets cfg.context ev.market,
        MetherCEX.settle (s.settlementContext cfg) i ev.payload s.bal with
    | .ok assets, .ok eff =>
      { s with
        spot := s.spot.settle cfg.markets i
        bal := applyUpdates s.bal eff.updates
        fills := s.fills ++ settledFills assets ev }
    | _, _ => s

def step (s : FundsState) : SpotAction → FundsState
  | .commit i id nowMs => s.commit cfg i id nowMs
  | .place i clock answer => s.place cfg i clock answer
  | .commitCancel i => s.commitCancel cfg i
  | .settle i => s.settle cfg i
  | act => { s with spot := s.spot.step cfg.route cfg.markets act }

def run (bal : Balances) (acts : List SpotAction) : FundsState :=
  acts.foldl (step cfg) (init bal)

end Steps

end FundsState

end MetherCEX
