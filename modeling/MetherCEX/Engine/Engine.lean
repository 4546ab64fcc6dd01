import Mathlib.Data.String.Basic
import MetherCEX.Engine.OrderBook

/-!
# The engine

`Engine` holds one book a market, the buffer of numbered match events, the next
event id and the ids of the events whose fills the books already reflect
(`engine.rs`). The concurrent map of the books is an ordered map: the engine
only ever walks it to build a list that it sorts afterwards, or to change every
book. The hash set of applied ids is a list without repetitions.
-/

namespace MetherCEX

def maxEvents : ℕ := 5000000

structure Engine where
  orderBooks : SortedMap Market OrderBook
  matchEvents : SortedMap ℕ MatchEvent
  nextEventId : ℕ
  bookAppliedMatchEventIds : List ℕ

/-- Why a fill cannot be applied to a book, with the values the message shows. -/
inductive FillError
  | nonPositiveQuantity
  | missingOrder (bidFound askFound : Bool) (bidOrderId askOrderId : OrderId)
  | marketMismatch (event bid ask : Market)
  | insufficientRemaining (bidRemaining askRemaining need : Quantity)
  deriving DecidableEq

namespace OrderBook

def insertAndMatch (b : OrderBook) (market : Market) (now : ℕ → ℕ) (o : Order) :
    List MatchEvent × OrderBook :=
  (b.insert o).matchOrders market now o.id

/-- Puts an order back unless nothing remains of it. -/
def putBack (b : OrderBook) (o : Order) : OrderBook :=
  if o.remaining ≠ 0 then b.insert o else b

def applyMatchFill (b : OrderBook) (ev : MatchEvent) : Except FillError OrderBook :=
  if ev.quantity ≤ 0 then .error .nonPositiveQuantity
  else
    match b.bids.find? (fun o => decide (o.id = ev.bidOrderId)),
        b.asks.find? (fun o => decide (o.id = ev.askOrderId)) with
    | some (bidKey, bid), some (askKey, ask) =>
      if bid.market ≠ ev.market ∨ ask.market ≠ ev.market then
        .error (.marketMismatch ev.market bid.market ask.market)
      else if bid.remaining < ev.quantity ∨ ask.remaining < ev.quantity then
        .error (.insufficientRemaining bid.remaining ask.remaining ev.quantity)
      else
        .ok ((((b.removeBid bidKey).removeAsk askKey).putBack
          (bid.withRemaining (bid.remaining - ev.quantity))).putBack
            (ask.withRemaining (ask.remaining - ev.quantity)))
    | bid, ask => .error (.missingOrder bid.isSome ask.isSome ev.bidOrderId ev.askOrderId)

end OrderBook

/-- The events numbered from `start`, which wraps as the counter does. -/
def numberEvents (start : ℕ) (es : List MatchEvent) : List (ℕ × MatchEvent) :=
  es.zipIdx.map fun e => ((start + e.2) % usizeBound, e.1)

namespace Engine

def new : Engine where
  orderBooks := .empty
  matchEvents := .empty
  nextEventId := 1
  bookAppliedMatchEventIds := []

/-- The book of a market; a market that is not yet there has an empty book. -/
def bookOf (e : Engine) (market : Market) : OrderBook :=
  (e.orderBooks.get? market).getD .new

def collectAllOrders (e : Engine) : List Order :=
  (e.orderBooks.values.flatMap fun b => b.snapshot.bids ++ b.snapshot.asks).insertionSort
    fun a b => a.market < b.market ∨ a.market = b.market ∧ a.id ≤ b.id

def bookAppliedMatchIdsSnapshot (e : Engine) : List ℕ :=
  e.bookAppliedMatchEventIds.insertionSort (· ≤ ·)

def recordBookAppliedForEventIds (e : Engine) (ids : List ℕ) : Engine :=
  { e with
    bookAppliedMatchEventIds :=
      ids.foldl (fun applied id => applied.insert id) e.bookAppliedMatchEventIds }

/-- Stores an event under its id unless the id is taken, and drops the oldest
events once the buffer is full. -/
def insertMatchEventSorted (e : Engine) (eventId : ℕ) (ev : MatchEvent) : Engine :=
  match e.matchEvents.get? eventId with
  | some _ => e
  | none =>
    let w := e.matchEvents.insert eventId ev
    { e with matchEvents := w.drop (w.entries.length - maxEvents) }

def insertOrder (e : Engine) (o : Order) : Engine :=
  { e with orderBooks := e.orderBooks.insert o.market ((e.bookOf o.market).insert o) }

def restoreFromPersistenceSnapshot (orders : List Order) (nextEventId : ℕ)
    (bookApplied : List ℕ) : Engine :=
  { orders.foldl insertOrder { new with bookAppliedMatchEventIds := bookApplied } with
    nextEventId := max nextEventId 1 }

/-- The engine the backend describes; the next id follows the last settled one. -/
def restoreOrderbook (orders : List Order) (lastEngineEventId : ℕ) : Engine :=
  { orders.foldl insertOrder new with
    nextEventId := min (lastEngineEventId + 1) (usizeBound - 1) }

/-- Applies a replayed event to the book of its market, once for each id. -/
def applyReplayEvent (e : Engine) (eventId : ℕ) (ev : MatchEvent) :
    Except FillError Engine :=
  if eventId ∈ e.bookAppliedMatchEventIds then .ok e
  else
    match (e.bookOf ev.market).applyMatchFill ev with
    | .error err => .error err
    | .ok book =>
      .ok (({ e with orderBooks := e.orderBooks.insert ev.market book }
        ).recordBookAppliedForEventIds [eventId] |>.insertMatchEventSorted eventId ev)

def trialMatch (e : Engine) (now : ℕ → ℕ) (o : Order) : List MatchEvent × OrderBook :=
  (e.bookOf o.market).insertAndMatch o.market now o

def commitBook (e : Engine) (market : Market) (book : OrderBook) : Engine :=
  { e with orderBooks := e.orderBooks.insert market book }

/-- A placement finds the book of its market, or puts an empty one there. -/
def enterMarket (e : Engine) (market : Market) : Engine := e.commitBook market (e.bookOf market)

/-- Takes `n` ids from the counter, which wraps. -/
def fetchAdd (e : Engine) (n : ℕ) : Engine :=
  { e with nextEventId := (e.nextEventId + n) % usizeBound }

def insertEvents (e : Engine) (pairs : List (ℕ × MatchEvent)) : Engine :=
  pairs.foldl (fun e p => e.insertMatchEventSorted p.1 p.2) e

def recordEvents (e : Engine) (pairs : List (ℕ × MatchEvent)) : Engine :=
  (e.insertEvents pairs).recordBookAppliedForEventIds (pairs.map Prod.fst)

/-- Places an order: match and commit, then number and record the events. -/
def placeOrder (e : Engine) (now : ℕ → ℕ) (o : Order) :
    Engine × List (ℕ × MatchEvent) :=
  let (events, book) := e.trialMatch now o
  let committed := e.commitBook o.market book
  let pairs := numberEvents committed.nextEventId events
  let counted := if 0 < events.length then committed.fetchAdd events.length else committed
  (counted.recordEvents pairs, pairs)

def pendingPairs (e : Engine) (now : ℕ → ℕ) (o : Order) : List (ℕ × MatchEvent) :=
  numberEvents e.nextEventId (e.trialMatch now o).1

/-- Places an order whose events have to pass a callback before the book is committed. -/
def placeGuarded {ε : Type} (e : Engine) (now : ℕ → ℕ) (o : Order)
    (guard : List (ℕ × MatchEvent) → Except ε Unit) :
    Engine × Except ε (List (ℕ × MatchEvent)) :=
  let (events, book) := e.trialMatch now o
  if events = [] then (e.commitBook o.market book, .ok [])
  else
    let pairs := numberEvents e.nextEventId events
    let counted := e.fetchAdd events.length
    match guard pairs with
    | .error err => (counted.enterMarket o.market, .error err)
    | .ok () => ((counted.commitBook o.market book).recordEvents pairs, .ok pairs)

/-- Places an order; the events are published before the book is committed. -/
def placeOrderCommitAfterPublish {ε : Type} (e : Engine) (now : ℕ → ℕ) (o : Order)
    (publish : List (ℕ × MatchEvent) → Except ε Unit) :
    Engine × Except ε (List (ℕ × MatchEvent)) :=
  e.placeGuarded now o publish

/-- Places an order; the events are in the journal before the book is committed. -/
def placeOrderWalThenCommitBook {ε : Type} (e : Engine) (now : ℕ → ℕ) (o : Order)
    (walPreCommit : List (ℕ × MatchEvent) → Except ε Unit) :
    Engine × Except ε (List (ℕ × MatchEvent)) :=
  e.placeGuarded now o walPreCommit

/-- Places an order; the events are in the journal and then published before the
book is committed. -/
def placeOrderWalPublishCommitBook (e : Engine) (now : ℕ → ℕ) (o : Order)
    (walPreCommit publish : List (ℕ × MatchEvent) → Except String Unit) :
    Engine × Except String (List (ℕ × MatchEvent)) :=
  e.placeGuarded now o fun pairs => do
    walPreCommit pairs
    publish pairs

def cancelOrder (e : Engine) (orderId : OrderId) : Engine :=
  { e with orderBooks := e.orderBooks.mapValues fun b => b.cancelOrder orderId }

def getMatchEventsAfter (e : Engine) (afterId : ℕ) : List (ℕ × MatchEvent) × ℕ :=
  (e.matchEvents.entries.filter fun p => decide (afterId < p.1),
    (e.matchEvents.entries.getLast?.map Prod.fst).getD 0)

def orders (e : Engine) : List Order := e.orderBooks.values.flatMap OrderBook.orders

end Engine

end MetherCEX
