import MetherCEX.Lib.LockTable
import MetherCEX.Lib.Run
import MetherCEX.Wallet.Ledger

/-!
# Deposits

The indexers record a row of `deposits` for every transfer to a watched address. Four pieces of
code credit such a row to the funding balance of its user: `creditDepositIfConfirmed` and
`applyBalanceForOneCompletedDeposit` of the backend, `confirmDeposit` of the confirmation
tracker of the EVM chains, and `creditConfirmedDeposit` of the Bitcoin and Tron indexers. Each
of them runs a transaction that starts with the row: the backend reads it `FOR UPDATE`, the
others update it where `balance_applied_at` is null. The statement waits for the lock of the
row and looks at the row again once it has it. The balance is locked next, read and written,
and the commit makes all of it visible.
-/

namespace MetherCEX

open Decimal Run

abbrev DepositId := Uuid

abbrev CreditorId := ℕ

inductive DepositStatus
  | pending
  | completed
  | failed
  deriving DecidableEq

/-- A row of `deposits`. Of `credited_at` and `balance_applied_at` only matters whether they are
null. -/
structure Deposit where
  userId : UserId
  currencyId : CurrencyId
  chainId : ChainId
  txHash : String
  toAddress : String
  amount : ℚ
  blockNumber : ℤ
  confirmations : ℤ
  requiredConfirmations : ℤ
  status : DepositStatus
  credited : Bool
  applied : Bool
  isFlagged : Bool
  deriving DecidableEq

namespace Deposit

/-- The row of `user_balances` that a deposit is credited to. -/
def ownerKey (d : Deposit) : WalletKey := ⟨d.userId, d.currencyId, chainIdGlobal, .funding⟩

/-- `status = 'completed', credited_at = NOW(), balance_applied_at = NOW()`. -/
def completed (d : Deposit) : Deposit :=
  { d with status := .completed, credited := true, applied := true }

def confirmed (d : Deposit) (confirmations : ℤ) : Deposit :=
  { d with confirmations := confirmations }

def SameTransfer (d d' : Deposit) : Prop :=
  d.chainId = d'.chainId ∧ d.txHash = d'.txHash ∧ d.toAddress = d'.toAddress
  deriving Decidable

end Deposit

inductive CreditPath
  | confirmed
  | repaired
  | tracker
  | sweep
  deriving DecidableEq

namespace CreditPath

def amount : CreditPath → ℚ → ℚ
  | .confirmed | .repaired => toAmount
  | .tracker | .sweep => id

def creditRow (path : CreditPath) (row : WalletRow) (amount : ℚ) : WalletRow :=
  { row with
    available := row.available + amount
    pending := if path = .repaired then row.pending else max (row.pending - amount) 0
    totalDeposited := row.totalDeposited + amount }

/-- The check of the row that was written; the indexers look at the available balance only. -/
def Accepts : CreditPath → WalletRow → Prop
  | .confirmed, row | .repaired, row => row.Valid
  | .tracker, row | .sweep, row => 0 ≤ row.available

instance : ∀ (path : CreditPath) (row : WalletRow), Decidable (path.Accepts row)
  | .confirmed, row | .repaired, row => inferInstanceAs (Decidable row.Valid)
  | .tracker, row | .sweep, row => inferInstanceAs (Decidable (0 ≤ row.available))

def shown : CreditPath → ℚ → ℚ
  | .confirmed | .repaired => toAmount
  | .tracker | .sweep => id

def entry (path : CreditPath) (key : WalletKey) (row : WalletRow) (amount : ℚ)
    (depositId : DepositId) : WalletEntry :=
  ⟨key, 0, amount, path.shown row.available, path.shown (row.available + amount),
    .deposit depositId, .available⟩

end CreditPath

structure DepositCredit where
  depositId : DepositId
  path : CreditPath
  key : WalletKey
  amount : ℚ
  deriving DecidableEq

structure ListedDeposit where
  id : DepositId
  row : Deposit
  deriving DecidableEq

inductive DepositJob
  | creditDepositIfConfirmed (id : DepositId)
  | applyBalanceForOneCompletedDeposit (id : DepositId)
  | confirmDeposit (listed : ListedDeposit)
  | creditConfirmedDeposit (listed : ListedDeposit)
  deriving DecidableEq

namespace DepositJob

def depositId : DepositJob → DepositId
  | .creditDepositIfConfirmed id => id
  | .applyBalanceForOneCompletedDeposit id => id
  | .confirmDeposit listed => listed.id
  | .creditConfirmedDeposit listed => listed.id

def path : DepositJob → CreditPath
  | .creditDepositIfConfirmed _ => .confirmed
  | .applyBalanceForOneCompletedDeposit _ => .repaired
  | .confirmDeposit _ => .tracker
  | .creditConfirmedDeposit _ => .sweep

def Takes : DepositJob → Deposit → Prop
  | .creditDepositIfConfirmed _, d =>
    d.status = .pending ∧ d.isFlagged = false ∧ d.applied = false ∧
      d.requiredConfirmations ≤ d.confirmations ∧ 0 < d.amount
  | .applyBalanceForOneCompletedDeposit _, d =>
    d.status = .completed ∧ d.credited = true ∧ d.applied = false ∧ 0 < d.amount
  | .confirmDeposit _, d => d.applied = false
  | .creditConfirmedDeposit _, d => d.applied = false

instance (job : DepositJob) (d : Deposit) : Decidable (job.Takes d) := by
  cases job <;> dsimp only [DepositJob.Takes] <;> infer_instance

/-- The row that the job takes user, currency and amount from: the locked row, or the listed
one. -/
def source (d : Deposit) : DepositJob → Deposit
  | .creditDepositIfConfirmed _ => d
  | .applyBalanceForOneCompletedDeposit _ => d
  | .confirmDeposit listed => listed.row
  | .creditConfirmedDeposit listed => listed.row

def creditedRow (d : Deposit) : DepositJob → Deposit
  | .applyBalanceForOneCompletedDeposit _ => { d with applied := true }
  | _ => d.completed

end DepositJob

structure BalanceWrite where
  row : WalletRow
  entry : WalletEntry
  credit : DepositCredit
  deriving DecidableEq

structure DepositWrite where
  row : Deposit
  balance : Option BalanceWrite
  deriving DecidableEq

/-- What a job writes to credit the locked row `d` to a balance that reads `row`. -/
def DepositJob.creditWrite (job : DepositJob) (d : Deposit) (row : WalletRow) : DepositWrite :=
  let key := (job.source d).ownerKey
  let amount := job.path.amount (job.source d).amount
  ⟨job.creditedRow d, some ⟨job.path.creditRow row amount,
    job.path.entry key row amount job.depositId, ⟨job.depositId, job.path, key, amount⟩⟩⟩

inductive DepositStage
  | ready
  /-- Ask for the receipt of the transaction. -/
  | verify
  /-- Open the transaction. -/
  | opening
  /-- The row is locked, and was read as `d`. -/
  | locked (d : Deposit)
  | written (w : DepositWrite)
  deriving DecidableEq

structure DepositProcess where
  jobs : List DepositJob
  stage : DepositStage
  deriving DecidableEq

inductive DepositResource
  | deposit (id : DepositId)
  | balance (key : WalletKey)
  deriving DecidableEq

/-- The committed tables (the id of a deposit is its position), the locks, the processes, and
the credits that were committed. -/
structure DepositState where
  deposits : List Deposit
  wallet : Wallet
  locks : LockTable DepositResource CreditorId
  processes : CreditorId → DepositProcess
  credits : List DepositCredit

/-- The sanctions check, the currencies, and the EVM chains, which are those with a provider. -/
structure DepositConfig where
  checkSanctions : String → CurrencyId → ℚ → UserId → Bool
  currencyExists : CurrencyId → Bool
  hasProvider : ChainId → Bool

def DepositConfig.allows (cfg : DepositConfig) (d : Deposit) : Bool :=
  cfg.checkSanctions d.toAddress d.currencyId (toAmount d.amount) d.userId

/-- An answer from outside: nothing or an error; a block number or a number of confirmations;
`success` for a step that works, such as a commit; a receipt of a failed transaction. -/
inductive ChainAnswer
  | none
  | number (n : ℤ)
  | success
  | reverted
  deriving DecidableEq

namespace DepositState

variable (cfg : DepositConfig) (s : DepositState) (p : CreditorId) (job : DepositJob)
  (rest : List DepositJob) (answer : ChainAnswer)

def rowsWhere (P : Deposit → Bool) : List ListedDeposit :=
  (s.deposits.zipIdx.filter fun d => P d.1).map fun d => ⟨d.2, d.1⟩

/-- The list of `creditOverdueDepositsForUser`. -/
def overdueDeposits (userId : UserId) : List DepositJob :=
  (s.rowsWhere fun d => d.userId = userId ∧
      (DepositJob.creditDepositIfConfirmed 0).Takes d).map
    fun listed => .creditDepositIfConfirmed listed.id

def listLimit : ℕ := 100

/-- The list of `checkPendingDeposits`. -/
def pendingDeposits : List DepositJob :=
  ((s.rowsWhere fun d => d.status = .pending ∧ cfg.currencyExists d.currencyId).take
    listLimit).map .confirmDeposit

/-- The list of `creditReadyDepositsForChain`. -/
def readyDeposits (chainId : ChainId) : List DepositJob :=
  ((s.rowsWhere fun d => d.chainId = chainId ∧ d.status = .pending ∧ d.applied = false ∧
    cfg.currencyExists d.currencyId).take listLimit).map .creditConfirmedDeposit

def setProcess (process : DepositProcess) : DepositState :=
  { s with processes := Function.update s.processes p process }

def setRow (id : DepositId) (d : Deposit) : DepositState :=
  { s with deposits := s.deposits.set id d }

/-- The transaction of the process ends, if it has one, and the process goes on. -/
def leave (jobs : List DepositJob) : DepositState :=
  { s with locks := s.locks.release p }.setProcess p ⟨jobs, .ready⟩

def proceed (stage : DepositStage) : DepositState := s.setProcess p ⟨job :: rest, stage⟩

def enter (resource : DepositResource) (stage : DepositStage) : DepositState :=
  { s with locks := s.locks.take p [resource] }.proceed p job rest stage

def updateDeposit (id : DepositId) (f : Deposit → Deposit) (next : DepositState → DepositState) :
    DepositState :=
  match s.deposits[id]? with
  | none => next s
  | some d => if s.locks (.deposit id) = none then next (s.setRow id (f d)) else s

/-- The process goes on if the confirmations are enough for the listed row. -/
def compareConfirmations (listed : ListedDeposit) (confirmations : ℤ) (enough : DepositStage) :
    DepositState :=
  if listed.row.requiredConfirmations ≤ confirmations then s.proceed p job rest enough
  else s.leave p rest

def countConfirmations (listed : ListedDeposit) (confirmations : ℤ) (enough : DepositStage) :
    DepositState :=
  s.updateDeposit listed.id (·.confirmed confirmations) fun s =>
    s.compareConfirmations p job rest listed confirmations enough

def ready : DepositState :=
  match job, answer with
  | .creditDepositIfConfirmed _, .success => s.proceed p job rest .opening
  | .applyBalanceForOneCompletedDeposit _, .success => s.proceed p job rest .opening
  | .confirmDeposit listed, .number currentBlock =>
    if cfg.hasProvider listed.row.chainId then
      s.countConfirmations p job rest listed (currentBlock - listed.row.blockNumber) .verify
    else s.leave p rest
  | .creditConfirmedDeposit listed, .number confirmations =>
    if confirmations = listed.row.confirmations then
      s.compareConfirmations p job rest listed confirmations .opening
    else s.countConfirmations p job rest listed confirmations .opening
  | _, _ => s.leave p rest

def verify : DepositState :=
  match answer with
  | .success => s.proceed p job rest .opening
  | .reverted =>
    s.updateDeposit job.depositId (fun d => { d with status := .failed }) fun s => s.leave p rest
  | _ => s.leave p rest

def openTransaction : DepositState :=
  match s.deposits[job.depositId]? with
  | none => s.leave p rest
  | some d =>
    if s.locks (.deposit job.depositId) ≠ none then s
    else if job.Takes d then s.enter p job rest (.deposit job.depositId) (.locked d)
    else s.leave p rest

def credit (d : Deposit) : DepositState :=
  let source := job.source d
  let row := s.wallet.balances source.ownerKey
  if s.locks (.balance source.ownerKey) ≠ none then s
  else if job.path.Accepts (job.path.creditRow row (job.path.amount source.amount)) then
    s.enter p job rest (.balance source.ownerKey) (.written (job.creditWrite d row))
  else s.leave p rest

/-- The rest of the transaction. The answer of the indexers is that of the look at
`currencies`. -/
def write (d : Deposit) : DepositState :=
  match job with
  | .creditDepositIfConfirmed _ =>
    if toAmount d.amount ≤ 0 then s.leave p rest
    else if cfg.allows d then s.credit p job rest d
    else s.proceed p job rest (.written ⟨{ d with isFlagged := true }, none⟩)
  | .applyBalanceForOneCompletedDeposit _ =>
    if toAmount d.amount ≤ 0 then
      s.proceed p job rest (.written ⟨{ d with applied := true }, none⟩)
    else s.credit p job rest d
  | .confirmDeposit _ =>
    if answer = .success then s.credit p job rest d
    else s.proceed p job rest (.written ⟨d.completed, none⟩)
  | .creditConfirmedDeposit _ =>
    if answer = .success then s.credit p job rest d else s.leave p rest

def apply (id : DepositId) (w : DepositWrite) : DepositState :=
  match w.balance with
  | none => s.setRow id w.row
  | some b =>
    { s.setRow id w.row with
      wallet := s.wallet.write b.credit.key b.row [b.entry]
      credits := s.credits ++ [b.credit] }

def commit (w : DepositWrite) : DepositState :=
  if answer = .success then (s.apply job.depositId w).leave p rest else s.leave p rest

def work : DepositState :=
  match (s.processes p).jobs with
  | [] => s
  | job :: rest =>
    match (s.processes p).stage with
    | .ready => s.ready cfg p job rest answer
    | .verify => s.verify p job rest answer
    | .opening => s.openTransaction p job rest
    | .locked d => s.write cfg p job rest answer d
    | .written w => s.commit p job rest answer w

end DepositState

inductive DepositCall
  | creditDepositIfConfirmed (id : DepositId)
  | creditOverdueDepositsForUser (userId : UserId)
  | applyBalanceForOneCompletedDeposit (id : DepositId)
  | checkPendingDeposits
  | creditReadyDepositsForChain (chainId : ChainId)
  deriving DecidableEq

inductive DepositAction
  | call (p : CreditorId) (call : DepositCall)
  | work (p : CreditorId) (answer : ChainAnswer)
  | crash (p : CreditorId)
  | record (d : Deposit)
  | bumpConfirmations (id : DepositId) (confirmations : ℤ)
  | updatePendingBalance (key : WalletKey) (amount : ℚ)
  deriving DecidableEq

namespace DepositState

variable (cfg : DepositConfig) (s : DepositState) (p : CreditorId)

def jobsOf : DepositCall → List DepositJob
  | .creditDepositIfConfirmed id => [.creditDepositIfConfirmed id]
  | .creditOverdueDepositsForUser userId => s.overdueDeposits userId
  | .applyBalanceForOneCompletedDeposit id => [.applyBalanceForOneCompletedDeposit id]
  | .checkPendingDeposits => s.pendingDeposits cfg
  | .creditReadyDepositsForChain chainId => s.readyDeposits cfg chainId

def call (c : DepositCall) : DepositState :=
  if (s.processes p).jobs = [] then s.setProcess p ⟨s.jobsOf cfg c, .ready⟩ else s

/-- `recordDeposit`, or `recordOrUpdateDeposit` with a new transfer: the row is pending, and a
transfer is inserted once. -/
def record (d : Deposit) : DepositState :=
  if d.amount ≤ 0 ∨ ∃ d' ∈ s.deposits, d.SameTransfer d' then s
  else
    { s with
      deposits := s.deposits ++
        [{ d with status := .pending, credited := false, applied := false, isFlagged := false }] }

/-- `recordOrUpdateDeposit` with a transfer that is there already. -/
def bumpConfirmations (id : DepositId) (confirmations : ℤ) : DepositState :=
  s.updateDeposit id (fun d => d.confirmed (max d.confirmations confirmations)) fun s => s

/-- `updatePendingBalance`, a single statement that waits for the lock of the row. -/
def updatePendingBalance (key : WalletKey) (amount : ℚ) : DepositState :=
  if s.locks (.balance key) ≠ none then s
  else
    let row := s.wallet.balances key
    { s with wallet := s.wallet.write key { row with pending := row.pending + amount } [] }

def step : DepositAction → DepositState
  | .call p c => s.call cfg p c
  | .work p answer => s.work cfg p answer
  | .crash p => s.leave p []
  | .record d => s.record d
  | .bumpConfirmations id confirmations => s.bumpConfirmations id confirmations
  | .updatePendingBalance key amount => s.updatePendingBalance key amount

/-- Any deposits and balances to start with, and the ledger of what follows. -/
def init (deposits : List Deposit) (start : WalletKey → WalletRow) : DepositState :=
  ⟨deposits, ⟨start, []⟩, fun _ => none, fun _ => ⟨[], .ready⟩, []⟩

def run (cfg : DepositConfig) (deposits : List Deposit) (start : WalletKey → WalletRow)
    (acts : List DepositAction) : DepositState :=
  acts.foldl (step cfg) (init deposits start)

end DepositState

end MetherCEX
