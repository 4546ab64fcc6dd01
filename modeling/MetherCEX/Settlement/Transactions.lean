import Mathlib.Data.List.MinMax
import MetherCEX.Lib.LockTable
import MetherCEX.Lib.Run
import MetherCEX.Settlement.Row

/-!
# Settlement transactions

The rows of `settlement_events` are settled by two kinds of processes, any number of each. A
worker (`processOneEvent`) takes the first pending row nobody has locked.
-/

namespace MetherCEX

open Checks Run

inductive SettlementStatus
  | pending
  | processed
  | failed
  deriving DecidableEq

/-- A row of `settlement_events`. -/
structure SettlementRow where
  id : ℕ
  matchEngineId : String
  engineEventId : ℕ
  payload : Option EnginePayload
  status : SettlementStatus
  retryCount : ℕ
  deriving DecidableEq

def maxRetries : ℕ := 10

/-- What a transaction locks: a row of `settlement_events`, the unique key of a row it
has inserted, and a row of `user_balances`. -/
inductive Resource
  | row (id : ℕ)
  | key (matchEngineId : String) (engineEventId : ℕ)
  | balance (userId : UserId) (currencyId : CurrencyId)
  deriving DecidableEq

inductive Driver
  | worker
  | jetStream
  deriving DecidableEq

/-- An open transaction: the row as it was read under its lock, whether the transaction
has inserted it, and what the settlement has written, once that is done. -/
structure Transaction where
  driver : Driver
  row : SettlementRow
  inserted : Bool
  effect : Option SettlementEffect
  deriving DecidableEq

inductive Progress
  | transaction (tx : Transaction)
  | failing (id : ℕ) (fatal : Bool)
  | exhausted (id : ℕ)
  deriving DecidableEq

abbrev ProcessId := ℕ

structure SettlementState where
  rows : List SettlementRow
  ledger : List LedgerEntry
  balances : Balances
  nextId : ℕ
  locks : LockTable Resource ProcessId
  processes : ProcessId → Option Progress
  applied : List ℕ
  external : UserId → CurrencyId → ℚ

inductive SettlementAction
  | persist (matchEngineId : String) (engineEventId : ℕ) (payload : Option EnginePayload)
  | claim (p : ProcessId)
  | deliver (p : ProcessId) (matchEngineId : String) (engineEventId : ℕ)
      (payload : EnginePayload)
  | process (p : ProcessId) (ctx : SettlementContext)
  | abort (p : ProcessId) (fatal : Bool)
  | commit (p : ProcessId)
  | crash (p : ProcessId)
  | recordFailure (p : ProcessId)
  | otherChange (userId : UserId) (currencyId : CurrencyId) (dAvailable dLocked : ℚ)

def entriesOf (ledger : List LedgerEntry) (id : ℕ) : List LedgerEntry :=
  ledger.filter fun e => e.settlementEventId = id

/-- `UPDATE settlement_events … WHERE id`. -/
def updateRow (rows : List SettlementRow) (id : ℕ) (f : SettlementRow → SettlementRow) :
    List SettlementRow :=
  rows.map fun r => if r.id = id then f r else r

namespace SettlementRow

def setStatus (status : SettlementStatus) (r : SettlementRow) : SettlementRow :=
  { r with status := status }

def countRetry (r : SettlementRow) : SettlementRow := { r with retryCount := r.retryCount + 1 }

def HasKey (r : SettlementRow) (matchEngineId : String) (engineEventId : ℕ) : Prop :=
  r.matchEngineId = matchEngineId ∧ r.engineEventId = engineEventId
  deriving Decidable

end SettlementRow

namespace SettlementState

/-- No rows, the balances `bal`, and no process at work. -/
def init (bal : Balances) : SettlementState :=
  { rows := []
    ledger := []
    balances := bal
    nextId := 1
    locks := fun _ => none
    processes := fun _ => none
    applied := []
    external := fun _ _ => 0 }

variable (s : SettlementState) (p : ProcessId)

def newRow (matchEngineId : String) (engineEventId : ℕ) (payload : Option EnginePayload) :
    SettlementRow :=
  ⟨s.nextId, matchEngineId, engineEventId, payload, .pending, 0⟩

/-- `INSERT … ON CONFLICT DO NOTHING` in a transaction of its own; it waits while another
transaction has inserted the key and is not committed. -/
def persist (matchEngineId : String) (engineEventId : ℕ) (payload : Option EnginePayload) :
    SettlementState :=
  if (∃ r ∈ s.rows, r.HasKey matchEngineId engineEventId) ∨
      s.locks (.key matchEngineId engineEventId) ≠ none then s
  else
    { s with
      rows := s.rows ++ [s.newRow matchEngineId engineEventId payload]
      nextId := s.nextId + 1 }

/-- The process `p` ends its transaction, if it has one, and goes on at `next`. -/
def leave (next : Option Progress) : SettlementState :=
  { s with
    locks := s.locks.release p
    processes := Function.update s.processes p next }

/-- The process `p` takes locks and goes on with the transaction `tx`. -/
def enter (ks : List Resource) (tx : Transaction) : SettlementState :=
  { s with
    locks := s.locks.take p ks
    processes := Function.update s.processes p (some (.transaction tx)) }

/-- `SELECT … WHERE status = 'pending' AND retry_count < … ORDER BY id LIMIT 1 FOR UPDATE
SKIP LOCKED`. -/
def claimable : Option SettlementRow :=
  (s.rows.filter fun r =>
    r.status = .pending ∧ r.retryCount < maxRetries ∧ s.locks (.row r.id) = none).argmin (·.id)

def claim : SettlementState :=
  match s.processes p, s.claimable with
  | none, some r => s.enter p [.row r.id] ⟨.worker, r, false, none⟩
  | _, _ => s

/-- The insert of a consumer, or its `SELECT … FOR UPDATE` of the row that is there. -/
def deliver (matchEngineId : String) (engineEventId : ℕ) (payload : EnginePayload) :
    SettlementState :=
  if s.processes p ≠ none ∨ engineEventId < 1 then s
  else
    match s.rows.find? (fun r => r.HasKey matchEngineId engineEventId) with
    | some r =>
      if s.locks (.row r.id) ≠ none ∨ r.status ≠ .pending then s
      else s.enter p [.row r.id] ⟨.jetStream, r, false, none⟩
    | none =>
      if s.locks (.key matchEngineId engineEventId) ≠ none then s
      else
        { s with nextId := s.nextId + 1 }.enter p
          [.row s.nextId, .key matchEngineId engineEventId]
          ⟨.jetStream, s.newRow matchEngineId engineEventId (some payload), true, none⟩

/-- The rollback after an error. Only a worker writes the failure down. -/
def rollback (tx : Transaction) (fatal : Bool) : SettlementState :=
  match tx.driver with
  | .worker => s.leave p (some (.failing tx.row.id fatal))
  | .jetStream => s.leave p none

/-- The balances that a settlement locks; the replay of a row locks none. -/
def balancesToLock (ctx : SettlementContext) (id : ℕ) (pl : EnginePayload) : List Resource :=
  if ∃ e ∈ s.ledger, e.settlementEventId = id then []
  else
    match resolveMarketAssets ctx pl.symbol with
    | .error _ => []
    | .ok m =>
      [.balance pl.takerUserId m.baseCurrencyId, .balance pl.takerUserId m.quoteCurrencyId,
       .balance pl.makerUserId m.baseCurrencyId, .balance pl.makerUserId m.quoteCurrencyId]

def settleLocked (tx : Transaction) (ctx : SettlementContext) (pl : EnginePayload) :
    SettlementState :=
  match processSettlementEventRow ctx s.ledger tx.row.id pl s.balances with
  | .error e => s.rollback p tx (isFatalError e)
  | .ok eff => s.enter p (s.balancesToLock ctx tx.row.id pl) { tx with effect := some eff }

def process (ctx : SettlementContext) : SettlementState :=
  match s.processes p with
  | some (.transaction tx) =>
    match tx.effect, tx.row.payload with
    | some _, _ => s
    | none, none => s.rollback p tx true
    | none, some pl =>
      if s.locks.CanTake p (s.balancesToLock ctx tx.row.id pl) then s.settleLocked p tx ctx pl
      else s
  | _ => s

/-- An error the model does not compute, such as a failure of the database. -/
def abort (fatal : Bool) : SettlementState :=
  match s.processes p with
  | some (.transaction tx) => s.rollback p tx fatal
  | _ => s

def write (tx : Transaction) (eff : SettlementEffect) : SettlementState :=
  { s with
    rows := updateRow (if tx.inserted then s.rows ++ [tx.row] else s.rows) tx.row.id
      (SettlementRow.setStatus .processed)
    ledger := s.ledger ++ eff.entries
    balances := applyUpdates s.balances eff.updates
    applied := if eff.updates = [] then s.applied else s.applied ++ [tx.row.id] }

def commit : SettlementState :=
  match s.processes p with
  | some (.transaction tx) =>
    match tx.effect with
    | some eff => (s.write tx eff).leave p none
    | none => s
  | _ => s

def crash : SettlementState := s.leave p none

def updateRows (id : ℕ) (f : SettlementRow → SettlementRow) : SettlementState :=
  { s with rows := updateRow s.rows id f }

/-- The `retry_count` of a row, as `RETURNING` gives it. -/
def retryCount (id : ℕ) : ℕ := ((s.rows.find? (fun r => r.id = id)).map (·.retryCount)).getD 0

def recordFailure : SettlementState :=
  match s.processes p with
  | some (.failing id true) =>
    if s.locks (.row id) ≠ none then s
    else (s.updateRows id (SettlementRow.setStatus .failed)).leave p none
  | some (.failing id false) =>
    if s.locks (.row id) ≠ none then s
    else
      (s.updateRows id SettlementRow.countRetry).leave p
        (if maxRetries ≤ s.retryCount id + 1 then some (.exhausted id) else none)
  | some (.exhausted id) =>
    if s.locks (.row id) ≠ none then s
    else (s.updateRows id (SettlementRow.setStatus .failed)).leave p none
  | _ => s

def otherChange (u : UserId) (c : CurrencyId) (dAvailable dLocked : ℚ) : SettlementState :=
  if s.locks (.balance u c) ≠ none then s
  else
    { s with
      balances := s.balances.set u c
        ⟨(s.balances u c).available + dAvailable, (s.balances u c).locked + dLocked⟩
      external := fun u' c' =>
        s.external u' c' + if u' = u ∧ c' = c then dAvailable + dLocked else 0 }

def step (s : SettlementState) : SettlementAction → SettlementState
  | .persist e i payload => s.persist e i payload
  | .claim p => s.claim p
  | .deliver p e i payload => s.deliver p e i payload
  | .process p ctx => s.process p ctx
  | .abort p fatal => s.abort p fatal
  | .commit p => s.commit p
  | .crash p => s.crash p
  | .recordFailure p => s.recordFailure p
  | .otherChange u c dAvailable dLocked => s.otherChange u c dAvailable dLocked

def run (bal : Balances) (acts : List SettlementAction) : SettlementState :=
  acts.foldl step (init bal)

def settledMarket (s : SettlementState) : SettlementAction → Option MarketAssets
  | .process p ctx =>
    match s.processes p with
    | some (.transaction tx) =>
      tx.row.payload.bind fun pl => (resolveMarketAssets ctx pl.symbol).toOption
    | _ => none
  | _ => none

end SettlementState

end MetherCEX
