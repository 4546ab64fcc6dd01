import MetherCEX.Engine.Engine
import MetherCEX.Lib.Run
import MetherCEX.Spot.Request

/-!
# Orders between the table and the engine

An order lives twice: as a row of `spot_orders` and, once it was forwarded, as an
order of the engine. The two are changed by separate steps of several programs.
-/

namespace MetherCEX

open Decimal

inductive OrderStatus
  | open
  | partiallyFilled
  | filled
  | cancelled
  | pendingTrigger
  deriving DecidableEq

/-- The `match_engine_id` of an order: none for an order that is not sent to an engine
when it is stored. -/
inductive EngineTarget
  | node
  | engine
  deriving DecidableEq

/-- A row of `spot_orders`. -/
structure OrderRow where
  id : OrderId
  userId : UserId
  market : Market
  side : Side
  kind : OrderKind
  price : Option ℚ
  stopPrice : Option ℚ
  trailingDelta : DecimalText
  trailingBestPrice : Option ℚ
  quantity : ℚ
  filledQuantity : ℚ
  status : OrderStatus
  timeInForce : TimeInForce
  matchEngineId : EngineTarget
  deriving DecidableEq

namespace OrderRow

def remaining (r : OrderRow) : ℚ := r.quantity - r.filledQuantity

def isOpen (r : OrderRow) : Bool :=
  (r.status == .open || r.status == .partiallyFilled) && decide (0 < r.remaining)

def isCancellable (r : OrderRow) : Bool :=
  r.status == .open || r.status == .partiallyFilled || r.status == .pendingTrigger

def cancelsOnEngine (r : OrderRow) : Bool :=
  !r.kind.isStop && r.matchEngineId == .engine

def addFilled (r : OrderRow) (fillQty : ℚ) : OrderRow :=
  { r with
    filledQuantity := r.filledQuantity + fillQty
    status := if r.quantity - r.filledQuantity - fillQty ≤ 0 then .filled else .partiallyFilled }

end OrderRow

def openPrices (rows : List OrderRow) (market : Market) (side : Side) : List ℚ :=
  (rows.filter fun r => r.market == market && r.side == side && r.isOpen).filterMap
    OrderRow.price

def getBestAsk (rows : List OrderRow) (market : Market) : ℚ :=
  (openPrices rows market .sell).min?.getD 0

def getBestBid (rows : List OrderRow) (market : Market) : ℚ :=
  (openPrices rows market .buy).max?.getD 0

def bestPrices (rows : List OrderRow) (market : Market) : BestPrices :=
  ⟨getBestAsk rows market, getBestBid rows market⟩

/-- A limit order of the given side and price can be matched with a row at `p`. -/
def priceReaches (side : Side) (price p : ℚ) : Bool :=
  match side with
  | .buy => decide (p ≤ price)
  | .sell => decide (price ≤ p)

def getFillableQuantity (rows : List OrderRow) (market : Market) (side : Side) (price : ℚ)
    (excludeUserId : UserId) : ℚ :=
  ((rows.filter fun r => r.market == market && r.side == side.opposite && r.isOpen &&
    r.userId != excludeUserId && r.price.any (priceReaches side price)).map
      OrderRow.remaining).sum

namespace CheckedOrder

def Immediate (c : CheckedOrder) : Prop :=
  c.kind = .market ∨ c.timeInForce = .ioc ∨ c.timeInForce = .fok
  deriving Decidable

/-- The row that is inserted. A stop order is not given to an engine yet. -/
def row (c : CheckedOrder) (id : OrderId) : OrderRow where
  id := id
  userId := c.userId
  market := c.market
  side := c.side
  kind := c.kind
  price := c.price
  stopPrice := c.stopPrice
  trailingDelta := c.trailingDelta
  trailingBestPrice := none
  quantity := c.qtyRounded
  filledQuantity := 0
  status := if c.kind.isStop then .pendingTrigger else .open
  timeInForce := c.timeInForce
  matchEngineId := if c.kind.isStop then .node else .engine

/-- The order that is sent to the engine: neither the time in force nor the post-only
flag is part of it, and its time is in whole seconds. -/
def rustOrder (c : CheckedOrder) (id : OrderId) (nowMs : ℕ) : Order where
  id := id
  userId := c.userId
  market := c.market
  side := c.side
  orderType := if c.kind = .market then .market else .limit
  price := c.price
  quantity := c.qtyRounded
  remaining := c.qtyRounded
  createdAt := nowMs / 1000

def fokNotFillable (c : CheckedOrder) (rows : List OrderRow) : Bool :=
  match c.kind, c.timeInForce, c.price with
  | .limit, .fok, some p =>
    decide (getFillableQuantity rows c.market c.side p c.userId < c.qtyRounded)
  | _, _, _ => false

end CheckedOrder

/-- Whether the condition of a stop order holds at a last price, and the best price that
is stored for a trailing stop otherwise. -/
def stopTriggered (r : OrderRow) (lastPrice : ℚ) : Bool × Option ℚ :=
  if r.kind = .trailingStopMarket then
    let best :=
      match r.trailingBestPrice with
      | some b => if b ≤ 0 then lastPrice else b
      | none => lastPrice
    match r.side with
    | .sell =>
      let best := max best lastPrice
      (match r.trailingDelta with
        | .finite d => decide (lastPrice ≤ best * (1 - d / 100))
        | _ => false, some (roundDown 8 best))
    | .buy =>
      let best := min best lastPrice
      (match r.trailingDelta with
        | .finite d => decide (best * (1 + d / 100) ≤ lastPrice)
        | _ => false, some (roundDown 8 best))
  else
    match r.stopPrice with
    | some p =>
      match r.side with
      | .buy => (decide (0 < p ∧ p ≤ lastPrice), none)
      | .sell => (decide (0 < p ∧ lastPrice ≤ p), none)
    | none => (false, none)

def OrderKind.triggered : OrderKind → OrderKind
  | .stopLoss | .trailingStopMarket => .market
  | .stopLimit | .limit | .market => .limit

def OrderRow.rustOrder (r : OrderRow) (nowMs : ℕ) : Order where
  id := r.id
  userId := r.userId
  market := r.market
  side := r.side
  orderType := if r.kind.triggered = .market then .market else .limit
  price := if r.kind.triggered = .market then none else r.price
  quantity := r.remaining
  remaining := r.remaining
  createdAt := nowMs / 1000

/-- An order on its way to the engine; a stop order goes back to the given kind if the
call fails. -/
structure Forwarded where
  order : Order
  restore : Option OrderKind
  deriving DecidableEq

/-- A cancel request: the row it has read, and whether the engine was called. -/
structure Cancelling where
  row : OrderRow
  engineDone : Bool
  deriving DecidableEq

/-- The table, the engine, and the programs between two of their steps. -/
structure SpotState where
  orders : List OrderRow
  engine : Engine
  checked : List CheckedOrder
  forwarded : List Forwarded
  cancelling : List Cancelling
  unsettled : List MatchEvent
  produced : List MatchEvent
  accepted : List (OrderId × CheckedOrder)
  placed : List OrderId

inductive EngineAnswer
  | ok
  | refused
  | lost
  deriving DecidableEq

inductive SpotAction
  | check (userId : UserId) (body : PlaceBody)
  | commit (i : ℕ) (id : OrderId) (nowMs : ℕ)
  | place (i : ℕ) (clock : ℕ → ℕ) (answer : EngineAnswer)
  | trigger (id : OrderId) (lastPrice : ℚ) (nowMs : ℕ)
  | readCancel (userId : UserId) (id : OrderId)
  | cancelOnEngine (i : ℕ)
  | commitCancel (i : ℕ)
  | settle (i : ℕ)

namespace SpotState

def init : SpotState := ⟨[], .new, [], [], [], [], [], [], []⟩

def updateOrder (s : SpotState) (id : OrderId) (f : OrderRow → OrderRow) : SpotState :=
  { s with orders := s.orders.map fun r => if r.id = id then f r else r }

section Steps

variable (cfg : RouteConfig) (markets : Market → Option SpotMarket)

def check (s : SpotState) (userId : UserId) (body : PlaceBody) : SpotState :=
  match checkOrder cfg markets (bestPrices s.orders) userId body with
  | .ok c => { s with checked := s.checked ++ [c] }
  | .error _ => s

/-- The transaction of the route: the fill-or-kill check and the insertion of the row,
whose id is new. -/
def commit (s : SpotState) (i : ℕ) (id : OrderId) (nowMs : ℕ) : SpotState :=
  match s.checked[i]? with
  | none => s
  | some c =>
    if id ∈ s.orders.map OrderRow.id then s
    else if c.fokNotFillable s.orders then { s with checked := s.checked.eraseIdx i }
    else
      { s with
        checked := s.checked.eraseIdx i
        orders := s.orders ++ [c.row id]
        forwarded :=
          if c.kind.isStop then s.forwarded
          else s.forwarded ++ [⟨c.rustOrder id nowMs, none⟩]
        accepted := s.accepted ++ [(id, c)] }

def placeOnEngine (s : SpotState) (clock : ℕ → ℕ) (o : Order) : SpotState :=
  { s with
    engine := (s.engine.placeOrder clock o).1
    unsettled := s.unsettled ++ (s.engine.placeOrder clock o).2.map Prod.snd
    produced := s.produced ++ (s.engine.placeOrder clock o).2.map Prod.snd
    placed := s.placed ++ [o.id] }

/-- What the caller does after a failed call: the route cancels the row, the stop service
puts an open row back. -/
def engineFailed (s : SpotState) (f : Forwarded) : SpotState :=
  match f.restore with
  | none => s.updateOrder f.order.id fun r => { r with status := .cancelled }
  | some kind =>
    s.updateOrder f.order.id fun r =>
      if r.status = .open then { r with status := .pendingTrigger, kind := kind } else r

def place (s : SpotState) (i : ℕ) (clock : ℕ → ℕ) (answer : EngineAnswer) : SpotState :=
  match s.forwarded[i]? with
  | none => s
  | some f =>
    let s := { s with forwarded := s.forwarded.eraseIdx i }
    match answer with
    | .ok => s.placeOnEngine clock f.order
    | .refused => s.engineFailed f
    | .lost => (s.placeOnEngine clock f.order).engineFailed f

/-- The transaction of the stop service for the row `r`, which it has read: the order is
opened and, if its market is there and something remains, sent to the engine. -/
def openStop (s : SpotState) (r : OrderRow) (nowMs : ℕ) : SpotState :=
  let s := s.updateOrder r.id fun r => { r with status := .open, kind := r.kind.triggered }
  if (markets r.market).isSome ∧ 0 < r.remaining then
    { s with forwarded := s.forwarded ++ [⟨r.rustOrder nowMs, some r.kind⟩] }
  else s

def trigger (s : SpotState) (id : OrderId) (lastPrice : ℚ) (nowMs : ℕ) : SpotState :=
  match s.orders.find? fun r => r.id == id && r.status == .pendingTrigger with
  | none => s
  | some r =>
    if lastPrice ≤ 0 then s
    else
      match stopTriggered r lastPrice with
      | (false, none) => s
      | (false, some best) =>
        s.updateOrder r.id fun r => { r with trailingBestPrice := some best }
      | (true, _) => s.openStop markets r nowMs

def readCancel (s : SpotState) (userId : UserId) (id : OrderId) : SpotState :=
  match s.orders.find? fun r => r.id == id && r.userId == userId with
  | none => s
  | some r =>
    if r.isCancellable then { s with cancelling := s.cancelling ++ [⟨r, false⟩] } else s

/-- The cancel route calls the engine, if the row it has read is of an engine order. -/
def cancelOnEngine (s : SpotState) (i : ℕ) : SpotState :=
  match s.cancelling[i]? with
  | some ⟨r, false⟩ =>
    { s with
      engine := if r.cancelsOnEngine then s.engine.cancelOrder r.id else s.engine
      cancelling := s.cancelling.set i ⟨r, true⟩ }
  | _ => s

def commitCancel (s : SpotState) (i : ℕ) : SpotState :=
  match s.cancelling[i]? with
  | some ⟨r, true⟩ =>
    { s with cancelling := s.cancelling.eraseIdx i }.updateOrder r.id fun r =>
      { r with status := .cancelled }
  | _ => s

/-- The settlement of a fill; it fails if the market or an order is not found. -/
def settle (s : SpotState) (i : ℕ) : SpotState :=
  match s.unsettled[i]? with
  | none => s
  | some ev =>
    match markets ev.market with
    | none => s
    | some m =>
      if ev.takerOrderId ∈ s.orders.map OrderRow.id ∧
          ev.makerOrderId ∈ s.orders.map OrderRow.id then
        let fillQty := roundDown m.qtyPrecision ev.quantity
        ({ s with unsettled := s.unsettled.eraseIdx i }.updateOrder ev.takerOrderId
          (·.addFilled fillQty)).updateOrder ev.makerOrderId (·.addFilled fillQty)
      else s

def step (s : SpotState) : SpotAction → SpotState
  | .check userId body => s.check cfg markets userId body
  | .commit i id nowMs => s.commit i id nowMs
  | .place i clock answer => s.place i clock answer
  | .trigger id lastPrice nowMs => s.trigger markets id lastPrice nowMs
  | .readCancel userId id => s.readCancel userId id
  | .cancelOnEngine i => s.cancelOnEngine i
  | .commitCancel i => s.commitCancel i
  | .settle i => s.settle markets i

def run (acts : List SpotAction) : SpotState := acts.foldl (step cfg markets) init

end Steps

end SpotState

def sampleMarkets (symbol : Market) : Option SpotMarket :=
  if symbol = "BTC_USDT" then
    some ⟨"BTC_USDT", .active, 0, "0", 0, "0", 2, 4, some 1, some 2⟩
  else none

def sampleBody (side type timeInForce : String) (price : DecimalText) (quantity : ℚ)
    (postOnly : Bool) : PlaceBody :=
  ⟨"btc-usdt", side, type, "", timeInForce, price, .finite quantity, .blank, .blank, .blank,
    postOnly, false⟩

def placeNow (userId : UserId) (body : PlaceBody) (id : OrderId) (nowMs : ℕ) :
    List SpotAction :=
  [.check userId body, .commit 0 id nowMs, .place 0 (fun _ => nowMs) .ok]

end MetherCEX
