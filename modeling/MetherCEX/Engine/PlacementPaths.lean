import MetherCEX.Lib.Run
import MetherCEX.Engine.Taker
import MetherCEX.Engine.Uncrossed

/-!
# Four ways to place an order

`place_order` matches in the book itself; the three variants with callbacks match on a copy,
commit at once when nothing was matched, and otherwise after their callbacks have succeeded.
-/

namespace MetherCEX

open SortedMap

def MatchEvent.undated (ev : MatchEvent) : MatchEvent := { ev with timestamp := 0 }

def undatedPairs (pairs : List (ℕ × MatchEvent)) : List (ℕ × MatchEvent) :=
  pairs.map fun p => (p.1, p.2.undated)

def noClock : ℕ → ℕ := fun _ => 0

section MatchLoop

variable {K : Type} [LinearOrder K]

def MatchState.undated (s : MatchState K) : MatchState K :=
  { s with events := s.events.map MatchEvent.undated }

variable {crosses : Order → Order → Bool}
variable {event : Order → Order → Price → Quantity → ℕ → MatchEvent}
variable (hevent : ∀ i m p q t, (event i m p q t).undated = event i m p q 0)

include hevent

theorem matchRound_undated (now : ℕ → ℕ) (s : MatchState K) (key : K) (maker : Order) :
    (matchRound event now s key maker).undated = matchRound event noClock s.undated key maker := by
  simp [matchRound, MatchState.undated, hevent, noClock]

theorem matchStep_undated (now : ℕ → ℕ) (s : MatchState K) : (matchStep crosses event now s).map
    MatchState.undated = matchStep crosses event noClock s.undated := by
  have hincoming : s.undated.incoming = s.incoming := rfl
  have hpassive : s.undated.passive = s.passive := rfl
  unfold matchStep
  rw [hincoming, hpassive]
  split_ifs
  · cases s.passive.find? (isCandidate crosses s.incoming) with
    | none => rfl
    | some entry =>
      dsimp only
      split_ifs
      · rfl
      · rw [Option.map_some, matchRound_undated hevent]
  · rfl

theorem matchLoop_undated (now : ℕ → ℕ) (incoming : Order) (passive : SortedMap K Order) :
    (matchLoop crosses event now incoming passive).undated =
      matchLoop crosses event noClock incoming passive :=
  Loop.iterate_map (matchStep_undated hevent now) _ _

end MatchLoop

theorem OrderBook.matchOrders_undated (b : OrderBook) (market : Market)
    (now : ℕ → ℕ) (id : OrderId) : ((b.matchOrders market now id).1.map MatchEvent.undated,
    (b.matchOrders market now id).2) = b.matchOrders market noClock id := by
  unfold matchOrders
  split
  · rfl
  · rename_i incoming book hremove
    cases incoming.side with
    | buy =>
      have hloop : (book.matchBuy market now incoming).undated =
          book.matchBuy market noClock incoming :=
        matchLoop_undated (fun _ _ _ _ _ => rfl) now incoming book.asks
      have hpassive : (book.matchBuy market now incoming).undated.passive =
          (book.matchBuy market noClock incoming).passive := by rw [hloop]
      have hafter : book.afterBuy market now incoming =
          book.afterBuy market noClock incoming := eq_of_sides rfl hpassive
      simp only [hafter, ← hloop]
      rfl
    | sell =>
      have hloop : (book.matchSell market now incoming).undated =
          book.matchSell market noClock incoming :=
        matchLoop_undated (fun _ _ _ _ _ => rfl) now incoming book.bids
      have hpassive : (book.matchSell market now incoming).undated.passive =
          (book.matchSell market noClock incoming).passive := by rw [hloop]
      have hafter : book.afterSell market now incoming =
          book.afterSell market noClock incoming := eq_of_sides hpassive rfl
      simp only [hafter, ← hloop]
      rfl

theorem numberEvents_undated (start : ℕ) (events : List MatchEvent) : undatedPairs
    (numberEvents start events) = numberEvents start (events.map MatchEvent.undated) := by
  simp [undatedPairs, numberEvents, List.zipIdx_map]

namespace Engine

variable {e : Engine} {o : Order}

def undated (e : Engine) : Engine :=
  { e with matchEvents := e.matchEvents.mapValues MatchEvent.undated }

theorem insertMatchEventSorted_undated (e : Engine) (id : ℕ) (ev : MatchEvent) :
    (e.insertMatchEventSorted id ev).undated = e.undated.insertMatchEventSorted id ev.undated := by
  unfold insertMatchEventSorted
  have hget : e.undated.matchEvents.get? id =
      (e.matchEvents.get? id).map MatchEvent.undated := get?_mapValues _ _ _
  rw [hget]
  cases e.matchEvents.get? id with
  | some ev' => rfl
  | none =>
    have hinsert : (e.matchEvents.insert id ev).mapValues MatchEvent.undated =
        e.undated.matchEvents.insert id ev.undated := mapValues_insert _ _ _ _
    dsimp only [Option.map_none]
    rw [← hinsert, length_mapValues, ← mapValues_drop]
    rfl

theorem insertEvents_undated (e : Engine) (pairs : List (ℕ × MatchEvent)) :
    (e.insertEvents pairs).undated = e.undated.insertEvents (undatedPairs pairs) := by
  induction pairs generalizing e with
  | nil => rfl
  | cons p pairs ih =>
    change ((e.insertMatchEventSorted p.1 p.2).insertEvents pairs).undated = _
    rw [ih, insertMatchEventSorted_undated]
    rfl

theorem recordEvents_undated (e : Engine) (pairs : List (ℕ × MatchEvent)) :
    (e.recordEvents pairs).undated = e.undated.recordEvents (undatedPairs pairs) := by
  have hids : (undatedPairs pairs).map Prod.fst = pairs.map Prod.fst := by
    simp [undatedPairs]
  rw [recordEvents, recordEvents, ← insertEvents_undated, hids]
  rfl

theorem trialMatch_undated (e : Engine) (now : ℕ → ℕ) (o : Order) : ((e.trialMatch now o).1.map
    MatchEvent.undated, (e.trialMatch now o).2) = e.undated.trialMatch noClock o :=
  OrderBook.matchOrders_undated _ _ _ _

theorem placeOrder_undated (e : Engine) (now : ℕ → ℕ) (o : Order) : ((e.placeOrder now o).1.undated,
    undatedPairs (e.placeOrder now o).2) = e.undated.placeOrder noClock o := by
  have hmatch := e.trialMatch_undated now o
  simp only [placeOrder, ← hmatch, List.length_map, recordEvents_undated, numberEvents_undated]
  split_ifs <;> rfl

theorem placeGuarded_of_ok {ε : Type} (now : ℕ → ℕ) (guard : List (ℕ × MatchEvent) → Except ε Unit)
    (h : e.pendingPairs now o ≠ [] → guard (e.pendingPairs now o) = .ok ()) :
    e.placeGuarded now o guard = ((e.placeOrder now o).1, .ok (e.placeOrder now o).2) := by
  rw [pendingPairs] at h
  simp only [placeGuarded, placeOrder]
  by_cases hnone : (e.trialMatch now o).1 = []
  · rw [if_pos hnone, hnone]
    rfl
  · have hpairs : numberEvents e.nextEventId (e.trialMatch now o).1 ≠ [] := by
      simpa [numberEvents] using hnone
    rw [if_neg hnone, h hpairs, if_pos (List.length_pos_iff.mpr hnone)]
    rfl

end Engine

/-- One of the ways to place an order, with the callbacks it is given. -/
inductive PlacePath (ε : Type)
  | placeOrder
  | commitAfterPublish (publish : List (ℕ × MatchEvent) → Except ε Unit)
  | walThenCommitBook (walPreCommit : List (ℕ × MatchEvent) → Except ε Unit)
  | walPublishCommitBook (walPreCommit publish : List (ℕ × MatchEvent) → Except String Unit)

namespace PlacePath

variable {ε : Type}

/-- The call, and what it returns; `none` is an error. -/
def call (e : Engine) (now : ℕ → ℕ) (o : Order) :
    PlacePath ε → Engine × Option (List (ℕ × MatchEvent))
  | .placeOrder => ((e.placeOrder now o).1, some (e.placeOrder now o).2)
  | .commitAfterPublish publish =>
    let (e', result) := e.placeOrderCommitAfterPublish now o publish
    (e', result.toOption)
  | .walThenCommitBook walPreCommit =>
    let (e', result) := e.placeOrderWalThenCommitBook now o walPreCommit
    (e', result.toOption)
  | .walPublishCommitBook walPreCommit publish =>
    let (e', result) := e.placeOrderWalPublishCommitBook now o walPreCommit publish
    (e', result.toOption)

/-- The callbacks return `Ok` for these events. -/
def Succeeds (pairs : List (ℕ × MatchEvent)) : PlacePath ε → Prop
  | .placeOrder => True
  | .commitAfterPublish publish => publish pairs = .ok ()
  | .walThenCommitBook walPreCommit => walPreCommit pairs = .ok ()
  | .walPublishCommitBook walPreCommit publish =>
    walPreCommit pairs = .ok () ∧ publish pairs = .ok ()

theorem call_of_succeeds {e : Engine} {now : ℕ → ℕ} {o : Order} {path : PlacePath ε}
    (h : e.pendingPairs now o ≠ [] → path.Succeeds (e.pendingPairs now o)) :
    path.call e now o = ((e.placeOrder now o).1, some (e.placeOrder now o).2) := by
  cases path with
  | placeOrder => rfl
  | commitAfterPublish publish =>
    simp only [call, Engine.placeOrderCommitAfterPublish,
      Engine.placeGuarded_of_ok now publish h]
    rfl
  | walThenCommitBook walPreCommit =>
    simp only [call, Engine.placeOrderWalThenCommitBook,
      Engine.placeGuarded_of_ok now walPreCommit h]
    rfl
  | walPublishCommitBook walPreCommit publish =>
    have hboth : e.pendingPairs now o ≠ [] →
        (do walPreCommit (e.pendingPairs now o); publish (e.pendingPairs now o)) =
          Except.ok () := by
      intro hne
      rw [(h hne).1]
      exact (h hne).2
    simp only [call, Engine.placeOrderWalPublishCommitBook,
      Engine.placeGuarded_of_ok now (fun pairs => do
        walPreCommit pairs
        publish pairs) hboth]
    rfl

end PlacePath

/-- A call of the engine, with the way in which an order is placed. -/
inductive PathOp (ε : Type)
  | place (path : PlacePath ε) (now : ℕ → ℕ) (o : Order)
  | cancel (orderId : OrderId)

/-- The engine and what its placements have returned, call by call. -/
structure PathTrace where
  engine : Engine
  answers : List (Option (List (ℕ × MatchEvent)))

namespace PathTrace

variable {ε : Type}

def init : PathTrace := ⟨Engine.new, []⟩

def step (s : PathTrace) : PathOp ε → PathTrace
  | .place path now o =>
    let (engine, answer) := path.call s.engine now o
    ⟨engine, s.answers ++ [answer]⟩
  | .cancel orderId => { s with engine := s.engine.cancelOrder orderId }

/-- The calls one after the other, from `Engine::new`. -/
def run (ops : List (PathOp ε)) : PathTrace := ops.foldl step init

def undated (s : PathTrace) : PathTrace :=
  ⟨s.engine.undated, s.answers.map (Option.map undatedPairs)⟩

/-- Both runs have returned the same in every call, and have the same books, buffer,
applied ids and next id, time stamps aside. -/
structure SameButTimes (s s' : PathTrace) : Prop where
  answers : s.answers.map (Option.map undatedPairs) = s'.answers.map (Option.map undatedPairs)
  orderBooks : s.engine.orderBooks = s'.engine.orderBooks
  matchEvents : s.engine.matchEvents.mapValues MatchEvent.undated =
    s'.engine.matchEvents.mapValues MatchEvent.undated
  applied : s.engine.bookAppliedMatchEventIds = s'.engine.bookAppliedMatchEventIds
  nextEventId : s.engine.nextEventId = s'.engine.nextEventId

theorem SameButTimes.of_undated {s s' : PathTrace} (h : s.undated = s'.undated) :
    SameButTimes s s' :=
  ⟨congrArg PathTrace.answers h,
    congrArg (fun t => t.engine.orderBooks) h,
    congrArg (fun t => t.engine.matchEvents) h,
    congrArg (fun t => t.engine.bookAppliedMatchEventIds) h,
    congrArg (fun t => t.engine.nextEventId) h⟩

/-- The callbacks of the call, if they are called, return `Ok`. -/
def CallbacksOk (s : PathTrace) : PathOp ε → Prop
  | .place path now o =>
    s.engine.pendingPairs now o ≠ [] → path.Succeeds (s.engine.pendingPairs now o)
  | .cancel _ => True

end PathTrace

/-- The same call, made with `place_order` at another time. -/
inductive PathOp.SameCall {ε : Type} : PathOp ε → PathOp ε → Prop
  | place (path : PlacePath ε) (now now' : ℕ → ℕ) (o : Order) :
      SameCall (.place path now o) (.place .placeOrder now' o)
  | cancel (orderId : OrderId) : SameCall (.cancel orderId) (.cancel orderId)

namespace PathTrace

variable {ε : Type}

theorem step_place_undated {s : PathTrace}
    {path : PlacePath ε} {now : ℕ → ℕ} {o : Order} (h : CallbacksOk s (.place path now o)) :
    (s.step (.place path now o)).undated = ⟨(s.engine.undated.placeOrder noClock o).1,
    s.undated.answers ++ [some (s.engine.undated.placeOrder noClock o).2]⟩ := by
  have hcall := PlacePath.call_of_succeeds h
  have hplace := s.engine.placeOrder_undated now o
  simp only [step, hcall, undated, List.map_append, ← hplace]
  rfl

theorem step_sameCall {s s' : PathTrace} {op op' : PathOp ε} (hsame : op.SameCall op')
    (hs : s.undated = s'.undated) (hok : CallbacksOk s op) :
    (s.step op).undated = (s'.step op').undated := by
  have hengine : s.engine.undated = s'.engine.undated := congrArg PathTrace.engine hs
  cases hsame with
  | place path now now' o =>
    have hplain : CallbacksOk s' (.place (.placeOrder : PlacePath ε) now' o) :=
      fun _ => trivial
    rw [step_place_undated hok, step_place_undated hplain, hengine, hs]
  | cancel orderId =>
    change (⟨s.engine.undated.cancelOrder orderId, s.undated.answers⟩ : PathTrace) =
      ⟨s'.engine.undated.cancelOrder orderId, s'.undated.answers⟩
    rw [hengine, hs]

theorem foldl_sameCall {ops ops' : List (PathOp ε)} (hsame : List.Forall₂ PathOp.SameCall ops ops')
    {s s' : PathTrace} (hs : s.undated = s'.undated) (hok : Run.Along step CallbacksOk s ops) :
    (ops.foldl step s).undated = (ops'.foldl step s').undated := by
  induction hsame generalizing s s' with
  | nil => exact hs
  | cons hop _ ih => exact ih (step_sameCall hop hs hok.1) hok.2

end PathTrace

open PathTrace in
/-- The four placement paths are equivalent on success: a sequence of placements, each
made in any of the four ways with callbacks that return `Ok`, and of cancellations
returns the same in every call as the sequence with `place_order` throughout, and leaves
the same books, buffer, applied ids and next id, time stamps aside. -/
theorem mixedRun_sameButTimes {ε : Type} (ops ops' : List (PathOp ε))
    (hsame : List.Forall₂ PathOp.SameCall ops ops')
    (hok : Run.Along step CallbacksOk init ops) : SameButTimes (run ops) (run ops') :=
  SameButTimes.of_undated (foldl_sameCall hsame rfl hok)

/-- Two sells, one of them with a repeated id, a buy that takes both through the journal
and the stream, and a cancellation. -/
def mixedRun (path : PlacePath String) (now : ℕ → ℕ) : List (PathOp String) :=
  [.place path now ⟨1, 10, "BTC_USDT", .sell, .limit, some 100, 1, 1, 5⟩,
    .place path now ⟨1, 10, "BTC_USDT", .sell, .limit, some 101, 1, 1, 6⟩,
    .place path now ⟨2, 11, "BTC_USDT", .buy, .limit, some 101, 3, 3, 7⟩,
    .cancel 2]

theorem mixedRun_paths :
    (PathTrace.run (mixedRun (.walPublishCommitBook (fun _ => .ok ()) fun _ => .ok ()) fun i => i +
    1)).answers.map (Option.map fun pairs => pairs.map Prod.fst) = [some [], some [], some [1, 2]] ∧
    (PathTrace.run (mixedRun (.walPublishCommitBook (fun _ => .ok ()) fun _ => .ok ())
    fun i => i + 1)).SameButTimes (PathTrace.run (mixedRun .placeOrder fun i => i + 9)) :=
  ⟨by decide +kernel, mixedRun_sameButTimes _ _
    (.cons (.place _ _ _ _) (.cons (.place _ _ _ _) (.cons (.place _ _ _ _)
      (.cons (.cancel _) .nil))))
    ⟨fun _ => ⟨rfl, rfl⟩, fun _ => ⟨rfl, rfl⟩, fun _ => ⟨rfl, rfl⟩, trivial, trivial⟩⟩

end MetherCEX
