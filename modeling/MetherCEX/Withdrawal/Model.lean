import MetherCEX.Lib.Checks
import MetherCEX.Lib.Run
import MetherCEX.Wallet.Ledger

/-!
# Withdrawals and the signing queue

A withdrawal locks its amount and fee in a row of `user_balances` (`wallet.fastify.ts`). It may
need the approval of an administrator, who may also reject it (`withdrawal-approval.service.ts`).
A withdrawal with the status `pending` is enqueued for signing, and the workers of
`withdrawal-signing.service.ts` sign and broadcast it: a worker claims the queue row, takes a
Redis lock, checks the withdrawal, signs or takes the stored signed transaction, stores it,
broadcasts it and completes the withdrawal. After a failure the row is put back for another
attempt, or the locked funds go back to the user.
-/

namespace MetherCEX

open Checks Decimal Run Function

abbrev WithdrawalId := Uuid
abbrev WorkerId := ℕ

/-- A signed transaction, by the number of the signature. Its hash identifies it as well. -/
abbrev SignedTx := ℕ

inductive WithdrawalStatus
  | pendingApproval
  | pending
  | completed
  | failed
  | cancelled
  deriving DecidableEq

def WithdrawalStatus.text : WithdrawalStatus → String
  | .pendingApproval => "pending_approval"
  | .pending => "pending"
  | .completed => "completed"
  | .failed => "failed"
  | .cancelled => "cancelled"

structure Withdrawal where
  userId : UserId
  tokenId : TokenId
  chainId : ChainId
  amount : ℚ
  fee : ℚ
  accountType : AccountType
  status : WithdrawalStatus
  txHash : Option SignedTx
  deriving DecidableEq

namespace Withdrawal

def total (w : Withdrawal) : ℚ := w.amount + w.fee

def closingKey (w : Withdrawal) (currencyId : CurrencyId) : WalletKey :=
  ⟨w.userId, currencyId, w.chainId, w.accountType⟩

end Withdrawal

inductive QueueStatus
  | pending
  | signing
  | broadcast
  | completed
  | failed
  | broadcastUncertain
  | cancelled
  deriving DecidableEq

/-- A row of `withdrawal_signing_queue`. -/
structure QueueRow where
  status : QueueStatus
  signedTx : Option SignedTx
  attempts : ℕ
  deriving DecidableEq

/-- `MAX_ATTEMPTS`, and the default of `max_attempts`, which no code changes. -/
def maxAttempts : ℕ := 3

inductive SigningStage
  /-- Take the lock. -/
  | claimed
  /-- Check the withdrawal. -/
  | locked
  | sign
  | persist
  | broadcast
  /-- Read the attempts after a failed broadcast. -/
  | broadcastFailed
  /-- Leave the row for another broadcast. -/
  | requeue
  /-- Look for the transaction on the chain. -/
  | recover
  | finish
  /-- `markQueueFailed`: read the attempts. -/
  | fail (refundOnFinal : Bool)
  /-- `markQueueFailed`: write the status of the row. -/
  | mark (isFinal refundOnFinal : Bool)
  /-- `markQueueFailed`: write the status of the withdrawal. -/
  | failWithdrawal
  /-- `markQueueFailed`: give the locked funds back. -/
  | refund
  deriving DecidableEq

/-- A worker at work on a claimed row, with the signed transaction it has. -/
structure SigningJob where
  withdrawalId : WithdrawalId
  signedTx : Option SignedTx
  stage : SigningStage
  deriving DecidableEq

/-- A call of `broadcastTransaction`, and whether the transaction reached the chain. -/
structure Broadcast where
  withdrawalId : WithdrawalId
  tx : SignedTx
  reached : Bool
  deriving DecidableEq

inductive WithdrawalError
  | api (code message : String)
  | thrown (message : String)
  deriving DecidableEq

/-- The tables (the id of a withdrawal is its position), the Redis locks, the workers, the
number of signatures made, and the broadcasts so far. -/
structure WithdrawalState where
  withdrawals : List Withdrawal
  queue : WithdrawalId → Option QueueRow
  wallet : Wallet
  locks : WithdrawalId → Option WorkerId
  workers : WorkerId → Option SigningJob
  signatures : ℕ
  broadcasts : List Broadcast

structure WithdrawalConfig where
  currencyIdForToken : TokenId → Option CurrencyId
  chainIdOfToken : TokenId → ChainId

/-- A request for an on-chain withdrawal, with the fee of the token, and whether it needs an
approval. -/
structure WithdrawalRequest where
  userId : UserId
  tokenId : TokenId
  amount : ℚ
  fee : ℚ
  accountType : AccountType
  needsApproval : Bool
  deriving DecidableEq

namespace Wallet

def lockEntries (key : WalletKey) (row : WalletRow) (total : ℚ) (id : WithdrawalId) :
    List WalletEntry :=
  [⟨key, total, 0, row.available, row.available - total, .withdrawal id, .available⟩,
    ⟨key, 0, total, row.locked, row.locked + total, .withdrawal id, .locked⟩]

/-- Moves the funds of a new withdrawal from the available to the locked balance. -/
def lockFunds (w : Wallet) (key : WalletKey) (total : ℚ) (id : WithdrawalId) :
    Except WithdrawalError Wallet := do
  let row := w.balances key
  refuseIf (row.available < total) (.api "BALANCE_ROW_NOT_FOUND_OR_MISMATCH"
    ("No matching balance row with sufficient available balance. " ++
      "Check user_balances for (user, currency, chain, account_type)."))
  let row' : WalletRow :=
    { row with available := row.available - total, locked := row.locked + total }
  refuseIf (¬ row'.Valid) (.api "BALANCE_LOCK_FAILED" "user_balances invariant violated")
  pure (w.write key row' (lockEntries key row total id))

/-- The lines of a refund. `shown` is how the balances are written into them. -/
def giveBackEntries (key : WalletKey) (row : WalletRow) (total : ℚ) (id : WithdrawalId)
    (shown : ℚ → ℚ) : List WalletEntry :=
  [⟨key, 0, total, shown row.available, shown (row.available + total), .withdrawal id,
      .available⟩,
    ⟨key, total, 0, shown row.locked, shown (row.locked - total), .withdrawal id, .locked⟩]

def giveBack (w : Wallet) (key : WalletKey) (total : ℚ) (id : WithdrawalId) (shown : ℚ → ℚ)
    (tooLittle : WithdrawalError) : Except WithdrawalError Wallet := do
  let row := w.balances key
  refuseIf (row.locked < total) tooLittle
  let row' : WalletRow :=
    { row with available := row.available + total, locked := row.locked - total }
  refuseIf (¬ row'.Valid) (.thrown "user_balances invariant violated")
  pure (w.write key row' (giveBackEntries key row total id shown))

def payOutEntries (key : WalletKey) (row : WalletRow) (total : ℚ) (id : WithdrawalId) :
    List WalletEntry :=
  [⟨key, total, 0, toAmount row.locked, toAmount (row.locked - total), .withdrawal id, .locked⟩]

/-- Takes the funds of a completed withdrawal out of the locked balance. -/
def payOut (w : Wallet) (key : WalletKey) (total : ℚ) (id : WithdrawalId) :
    Except WithdrawalError Wallet := do
  let row := w.balances key
  refuseIf (row.locked < total) (.thrown "user_balances UPDATE affected 0 rows")
  let row' : WalletRow := { row with locked := row.locked - total }
  refuseIf (¬ row'.Valid) (.thrown "user_balances invariant violated")
  pure (w.write key row' (payOutEntries key row total id))

end Wallet

namespace WithdrawalState

variable (cfg : WithdrawalConfig) (s : WithdrawalState)

/-- The row that a request locks its funds in: that of the chain of the token, and the global
one if that row has too little. -/
def lockKey (r : WithdrawalRequest) (currencyId : CurrencyId) (total : ℚ) : WalletKey :=
  let chainId := cfg.chainIdOfToken r.tokenId
  let key : WalletKey := ⟨r.userId, currencyId, chainId, r.accountType⟩
  if (s.wallet.balances key).available < total ∧ chainId ≠ chainIdGlobal
  then { key with chainId := chainIdGlobal }
  else key

/-- `POST /withdraw` for an on-chain withdrawal. -/
def withdraw (r : WithdrawalRequest) : Except WithdrawalError WithdrawalState := do
  let amount := toAmount r.amount
  refuseIf (amount ≤ 0) (.api "INVALID_AMOUNT" "Invalid withdrawal amount")
  let fee := toAmount r.fee
  let currencyId ← orRefuse (cfg.currencyIdForToken r.tokenId)
    (.api "INVALID_TOKEN" "Currency not found for this token")
  let total := toAmount (amount + fee)
  refuseIf (toAmount (amount - fee) ≤ 0) (.api "FEE_CONFIG_MISSING"
    "Net amount would be zero or negative. Check withdrawal fee configuration.")
  let wallet ← s.wallet.lockFunds (s.lockKey cfg r currencyId total) total s.withdrawals.length
  pure { s with
    withdrawals := s.withdrawals ++ [⟨r.userId, r.tokenId, cfg.chainIdOfToken r.tokenId, amount,
      fee, r.accountType, if r.needsApproval then .pendingApproval else .pending, none⟩]
    wallet := wallet }

def setWithdrawal (id : WithdrawalId) (w : Withdrawal) : WithdrawalState :=
  { s with withdrawals := s.withdrawals.set id w }

/-- `enqueueWithdrawal`. -/
def enqueueWithdrawal (id : WithdrawalId) (accepted : Bool) :
    Except WithdrawalError WithdrawalState := do
  let w ← orRefuse s.withdrawals[id]? (.thrown "Withdrawal not found")
  refuseIf (w.status ≠ .pending) (.thrown ("Only pending withdrawals can be enqueued; withdrawal "
    ++ toString id ++ " has status '" ++ w.status.text ++ "'"))
  if accepted = false ∨ s.queue id ≠ none then
    pure s
  else
    pure { s with queue := update s.queue id (some ⟨.pending, none, 0⟩) }

def awaitingApproval (id : WithdrawalId) : Except WithdrawalError Withdrawal := do
  let w ← orRefuse s.withdrawals[id]? (.api "WITHDRAWAL_NOT_FOUND" "Withdrawal not found")
  refuseIf (w.status ≠ .pendingApproval) (.api "NOT_PENDING_APPROVAL"
    ("Withdrawal is not pending approval (status: " ++ w.status.text ++ ")"))
  pure w

def approveWithdrawal (id : WithdrawalId) : Except WithdrawalError WithdrawalState := do
  let w ← s.awaitingApproval id
  pure (s.setWithdrawal id { w with status := .pending })

def rejectWithdrawal (id : WithdrawalId) : Except WithdrawalError WithdrawalState := do
  let w ← s.awaitingApproval id
  let currencyId ← orRefuse (cfg.currencyIdForToken w.tokenId)
    (.api "RELEASE_BALANCE_FAILED" "Could not resolve currency for token")
  let wallet ← s.wallet.giveBack (w.closingKey currencyId) w.total id (fun x => x)
    (.api "RELEASE_BALANCE_FAILED" "Balance row not found or insufficient locked for refund")
  pure { s.setWithdrawal id { w with status := .failed } with wallet := wallet }

/-- `POST /withdrawals/:id/cancel`. -/
def cancelWithdrawal (id : WithdrawalId) (userId : UserId) :
    Except WithdrawalError WithdrawalState := do
  let w ← orRefuse (s.withdrawals[id]?.filter fun w => w.userId = userId)
    (.api "NOT_FOUND" "Withdrawal not found")
  refuseIf (w.status ≠ .pending) (.api "WITHDRAWAL_NOT_CANCELLABLE"
    "Withdrawal no longer pending (possibly being processed)")
  refuseIf (w.txHash ≠ none)
    (.api "ALREADY_BROADCAST" "Withdrawal already broadcast; cannot cancel")
  refuseIf (w.status ≠ .pendingApproval) (.api "WITHDRAWAL_NOT_CANCELLABLE"
    "Withdrawal no longer pending (possibly being processed)")
  let s := s.setWithdrawal id { w with status := .cancelled }
  match cfg.currencyIdForToken w.tokenId with
  | none => pure s
  | some currencyId =>
    let wallet ← s.wallet.giveBack (w.closingKey currencyId) (toAmount w.total) id (fun x => x)
      (.thrown "WITHDRAWAL_CANCEL_BALANCE_ROW_NOT_FOUND")
    pure { s with wallet := wallet }

/-- The answer from outside: of Redis, of the checks on data outside of the model, of the signer,
and of the chain. -/
inductive Answer
  | yes
  | no
  | lost
  deriving DecidableEq

variable (n : WorkerId) (j : SigningJob) (answer : Answer)

/-- `UPDATE withdrawal_signing_queue … WHERE id`. -/
def updateRow (id : WithdrawalId) (f : QueueRow → QueueRow) : WithdrawalState :=
  { s with queue := update s.queue id ((s.queue id).map f) }

def setQueueStatus (id : WithdrawalId) (status : QueueStatus) : WithdrawalState :=
  s.updateRow id fun row => { row with status := status }

def proceed (j : SigningJob) (stage : SigningStage) : WithdrawalState :=
  { s with workers := update s.workers n (some { j with stage := stage }) }

def leave : WithdrawalState := { s with workers := update s.workers n none }

/-- `releaseLock`: only the own lock. -/
def release (id : WithdrawalId) : WithdrawalState :=
  { s with locks := if s.locks id = some n then update s.locks id none else s.locks }

def done : WithdrawalState := (s.release n j.withdrawalId).leave n

/-- The transaction in which `processSigningQueue` claims a row. -/
def claim (id : WithdrawalId) : WithdrawalState :=
  match s.workers n, s.queue id with
  | none, some row =>
    if (row.status = .pending ∨ row.status = .broadcast ∧ row.signedTx ≠ none) ∧
        row.attempts < maxAttempts then
      { s with
        queue := update s.queue id
          (some { row with status := .signing, attempts := row.attempts + 1 })
        workers := update s.workers n
          (some ⟨id, if row.status = .broadcast then row.signedTx else none, .claimed⟩) }
    else s
  | _, _ => s

/-- `acquireLock`. Without the lock the row is left for another worker. -/
def acquireLock : WithdrawalState :=
  if answer = .yes ∧ s.locks j.withdrawalId = none then
    { s with locks := update s.locks j.withdrawalId (some n) }.proceed n j .locked
  else
    (s.updateRow j.withdrawalId fun row =>
      { row with status := .pending, attempts := row.attempts - 1 }).leave n

def Signable (id : WithdrawalId) : Prop := ∃ w ∈ s.withdrawals[id]?, w.status = .pending
  deriving Decidable

/-- The checks of `processSigningQueueClaimed`. -/
def check : WithdrawalState :=
  if s.Signable j.withdrawalId ∧ answer = .yes then
    s.proceed n j (if j.signedTx = none then .sign else .broadcast)
  else s.proceed n j (.fail true)

def sign : WithdrawalState :=
  if answer = .yes then
    { s with signatures := s.signatures + 1 }.proceed n { j with signedTx := some s.signatures }
      .persist
  else s.proceed n j (.fail true)

def persist : WithdrawalState :=
  (s.updateRow j.withdrawalId fun row =>
    { row with status := .broadcast, signedTx := j.signedTx }).proceed n j .broadcast

def send (b : Broadcast) : WithdrawalState := { s with broadcasts := s.broadcasts ++ [b] }

def broadcast : WithdrawalState :=
  match j.signedTx with
  | none => s.done n j
  | some tx =>
    (s.send ⟨j.withdrawalId, tx, decide (answer ≠ .no)⟩).proceed n j
      (if answer = .yes then .finish else .broadcastFailed)

def AtLimit (id : WithdrawalId) : Prop := ∃ row ∈ s.queue id, maxAttempts ≤ row.attempts
  deriving Decidable

def broadcastFailed : WithdrawalState :=
  s.proceed n j (if s.AtLimit j.withdrawalId then .recover else .requeue)

def requeue : WithdrawalState := (s.setQueueStatus j.withdrawalId .broadcast).done n j

/-- `tryCompleteWithdrawalIfTxAlreadyOnChain`. -/
def recover : WithdrawalState :=
  if answer = .yes ∧ ∃ b ∈ s.broadcasts, j.signedTx = some b.tx ∧ b.reached = true then
    if ∃ w ∈ s.withdrawals[j.withdrawalId]?, w.status = .completed then s.done n j
    else s.proceed n j .finish
  else s.proceed n j (.fail false)

def failQueue (refundOnFinal : Bool) : WithdrawalState :=
  match s.queue j.withdrawalId with
  | none => s.done n j
  | some row => s.proceed n j (.mark (decide (maxAttempts ≤ row.attempts)) refundOnFinal)

def markQueue (isFinal refundOnFinal : Bool) : WithdrawalState :=
  match isFinal, refundOnFinal with
  | true, false => (s.setQueueStatus j.withdrawalId .broadcastUncertain).done n j
  | true, true => (s.setQueueStatus j.withdrawalId .failed).proceed n j .failWithdrawal
  | false, _ => (s.setQueueStatus j.withdrawalId .pending).done n j

def failWithdrawal : WithdrawalState :=
  match s.withdrawals[j.withdrawalId]? with
  | none => s.done n j
  | some w =>
    (s.setWithdrawal j.withdrawalId { w with status := .failed }).proceed n j .refund

def refund : WithdrawalState :=
  match s.withdrawals[j.withdrawalId]? with
  | none => s.done n j
  | some w =>
    match cfg.currencyIdForToken w.tokenId with
    | none => s.done n j
    | some currencyId =>
      match s.wallet.giveBack (w.closingKey currencyId) w.total j.withdrawalId toAmount
        (.thrown "withdrawal_fail_refund: locked_balance < refundAmount; invariant violation")
        with
      | .error _ => s.done n j
      | .ok wallet => { s with wallet := wallet }.done n j

def completed (w : Withdrawal) : WithdrawalState :=
  (s.setQueueStatus j.withdrawalId .completed).setWithdrawal j.withdrawalId
    { w with status := .completed, txHash := j.signedTx }

/-- `finishWithdrawalAfterSuccessfulBroadcast`. Only `cancelled` and `completed` stop it. -/
def finish : WithdrawalState :=
  match s.withdrawals[j.withdrawalId]? with
  | none => (s.setQueueStatus j.withdrawalId .failed).done n j
  | some w =>
    if w.status = .cancelled then (s.setQueueStatus j.withdrawalId .cancelled).done n j
    else if w.status = .completed then (s.setQueueStatus j.withdrawalId .completed).done n j
    else
      match cfg.currencyIdForToken w.tokenId with
      | none => (s.completed j w).done n j
      | some currencyId =>
        match s.wallet.payOut (w.closingKey currencyId) w.total j.withdrawalId with
        | .error _ => s.done n j
        | .ok wallet => { s.completed j w with wallet := wallet }.done n j

def work : WithdrawalState :=
  match s.workers n with
  | none => s
  | some j =>
    match j.stage with
    | .claimed => s.acquireLock n j answer
    | .locked => s.check n j answer
    | .sign => s.sign n j answer
    | .persist => s.persist n j
    | .broadcast => s.broadcast n j answer
    | .broadcastFailed => s.broadcastFailed n j
    | .requeue => s.requeue n j
    | .recover => s.recover n j answer
    | .finish => s.finish cfg n j
    | .fail refundOnFinal => s.failQueue n j refundOnFinal
    | .mark isFinal refundOnFinal => s.markQueue n j isFinal refundOnFinal
    | .failWithdrawal => s.failWithdrawal n j
    | .refund => s.refund cfg n j

end WithdrawalState

/-- `other` is a change of a balance by another service. -/
inductive WithdrawalAction
  | withdraw (request : WithdrawalRequest)
  | enqueue (id : WithdrawalId) (accepted : Bool)
  | approve (id : WithdrawalId)
  | reject (id : WithdrawalId)
  | cancel (id : WithdrawalId) (userId : UserId)
  | claim (worker : WorkerId) (id : WithdrawalId)
  | work (worker : WorkerId) (answer : WithdrawalState.Answer)
  | crash (worker : WorkerId)
  | expire (id : WithdrawalId)
  | other (key : WalletKey) (available locked : ℚ)
  deriving DecidableEq

namespace WithdrawalState

def init (start : WalletKey → WalletRow) : WithdrawalState :=
  ⟨[], fun _ => none, ⟨start, []⟩, fun _ => none, fun _ => none, 0, []⟩

/-- A request that fails is rolled back. -/
def orRollback (s : WithdrawalState) (r : Except WithdrawalError WithdrawalState) :
    WithdrawalState :=
  match r with
  | .ok s' => s'
  | .error _ => s

def otherChange (s : WithdrawalState) (key : WalletKey) (available locked : ℚ) :
    WithdrawalState :=
  let row := s.wallet.balances key
  { s with
    wallet := s.wallet.write key
      { row with available := row.available + available, locked := row.locked + locked }
      [⟨key, 0, available, row.available, row.available + available, .other, .available⟩,
        ⟨key, 0, locked, row.locked, row.locked + locked, .other, .locked⟩] }

def step (cfg : WithdrawalConfig) (s : WithdrawalState) : WithdrawalAction → WithdrawalState
  | .withdraw r => s.orRollback (s.withdraw cfg r)
  | .enqueue id accepted => s.orRollback (s.enqueueWithdrawal id accepted)
  | .approve id => s.orRollback (s.approveWithdrawal id)
  | .reject id => s.orRollback (s.rejectWithdrawal cfg id)
  | .cancel id userId => s.orRollback (s.cancelWithdrawal cfg id userId)
  | .claim n id => s.claim n id
  | .work n answer => s.work cfg n answer
  | .crash n => s.leave n
  | .expire id => { s with locks := update s.locks id none }
  | .other key available locked => s.otherChange key available locked

def run (cfg : WithdrawalConfig) (start : WalletKey → WalletRow) (acts : List WithdrawalAction) :
    WithdrawalState :=
  acts.foldl (step cfg) (init start)

end WithdrawalState

end MetherCEX
