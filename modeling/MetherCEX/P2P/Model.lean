import MetherCEX.Lib.Checks
import MetherCEX.Lib.Decimal
import MetherCEX.Lib.Run
import MetherCEX.Wallet.Ledger

/-!
# P2P orders and their escrows

A P2P order is placed against the advertisement of another user. Its crypto amount moves from
the available balance of the seller to the escrow balance, and a row of `escrows` is kept for
it (`moveToEscrow`). The buyer confirms the payment, the seller verifies it and releases the
crypto; before the payment either of them may cancel, after it either of them may open a
dispute, which an administrator resolves (`p2p.service.ts`). An escrow ends by a release to
the buyer or a refund to the seller (`p2p-escrow.service.ts`); an administrator may freeze it
in between (`operator-controls.service.ts`).
-/

namespace MetherCEX

open Checks Decimal Run

abbrev AdId := Uuid
abbrev EscrowId := Uuid
abbrev DisputeId := Uuid

inductive P2PAdType
  | buy
  | sell
  deriving DecidableEq

inductive P2PAdStatus
  | active
  | paused
  | completed
  | cancelled
  deriving DecidableEq

structure P2PAd where
  userId : UserId
  type : P2PAdType
  tokenId : TokenId
  minAmount : ℚ
  maxAmount : ℚ
  availableAmount : ℚ
  totalAmount : ℚ
  paymentTimeLimit : ℕ
  status : P2PAdStatus
  deriving DecidableEq

namespace P2PAd

/-- The two parties of an order that a user places against the advertisement. -/
def buyerFor (ad : P2PAd) (userId : UserId) : UserId :=
  if ad.type = .sell then userId else ad.userId

def sellerFor (ad : P2PAd) (userId : UserId) : UserId :=
  if ad.type = .sell then ad.userId else userId

def restored (ad : P2PAd) (quantity : ℚ) : P2PAd :=
  { ad with availableAmount := ad.availableAmount + quantity }

end P2PAd

inductive P2POrderStatus
  | paymentPending
  | paymentConfirmed
  | completed
  | cancelled
  | disputed
  | expired
  deriving DecidableEq

namespace P2POrderStatus

def text : P2POrderStatus → String
  | .paymentPending => "payment_pending"
  | .paymentConfirmed => "payment_confirmed"
  | .completed => "completed"
  | .cancelled => "cancelled"
  | .disputed => "disputed"
  | .expired => "expired"

def isTerminal : P2POrderStatus → Bool
  | .completed | .cancelled | .expired => true
  | _ => false

end P2POrderStatus

inductive VerificationStatus
  | pending
  | verified
  | rejected
  deriving DecidableEq

structure P2POrder where
  adId : AdId
  buyerId : UserId
  sellerId : UserId
  quantity : ℚ
  escrowId : EscrowId
  status : P2POrderStatus
  expiresAt : ℕ
  paymentConfirmedAt : Option ℕ
  paymentVerificationStatus : Option VerificationStatus
  deriving DecidableEq

inductive EscrowStatus
  | locked
  | released
  | refunded
  deriving DecidableEq

structure Escrow where
  userId : UserId
  currencyId : CurrencyId
  amount : ℚ
  status : EscrowStatus
  adminFrozen : Bool
  deriving DecidableEq

inductive DisputeStatus
  | opened
  | underReview
  | resolved
  | closed
  deriving DecidableEq

structure P2PDispute where
  orderId : OrderId
  status : DisputeStatus
  deriving DecidableEq

def P2PDispute.isActive (d : P2PDispute) : Bool :=
  !(d.status == .resolved || d.status == .closed)

inductive DisputeResolution
  | favorBuyer
  | favorSeller
  | cancelled
  deriving DecidableEq

/-- The key of a row of `user_balances` of the funding account. -/
structure FundingKey where
  userId : UserId
  currencyId : CurrencyId
  chainId : ChainId
  deriving DecidableEq

structure FundingRow where
  available : ℚ
  escrow : ℚ
  deriving DecidableEq

inductive EscrowReference
  | lock
  | release
  deriving DecidableEq

inductive EscrowBucket
  | available
  | pending
  deriving DecidableEq

/-- A row of `balance_ledger`. The reference of a lock is a random id, of which nothing is
kept. -/
structure EscrowEntry where
  userId : UserId
  currencyId : CurrencyId
  debit : ℚ
  credit : ℚ
  balanceBefore : ℚ
  balanceAfter : ℚ
  referenceType : EscrowReference
  referenceId : Option EscrowId
  balanceType : EscrowBucket
  deriving DecidableEq

inductive P2PError
  | message (text : String)
  | amountRange (minAmount maxAmount : ℚ)
  | noRowUpdated (operation : String) (userId : UserId) (currencyId : CurrencyId)
  | negativeBalance (row : FundingRow)
  deriving DecidableEq

/-- The tables; the id of a row is its position. -/
structure P2PState where
  ads : List P2PAd
  orders : List P2POrder
  escrows : List Escrow
  disputes : List P2PDispute
  balances : FundingKey → FundingRow
  ledger : List EscrowEntry

/-- The settings, the tokens, and the decimal places of the quantity column. -/
structure P2PConfig where
  currencyIdForToken : TokenId → Option CurrencyId
  chainIdOfToken : TokenId → ChainId
  requirePaymentProof : Bool
  slaReleaseMinutes : ℕ
  quantityScale : ℕ

/-- The value of a numeric column with the given places, rounded half up. -/
def numericColumn (scale : ℕ) (x : ℚ) : ℚ := ⌊x * 10 ^ scale + 1 / 2⌋ / 10 ^ scale

namespace P2PState

def assertBalanceInvariant (row : FundingRow) : Except P2PError Unit :=
  refuseIf (row.available < 0 ∨ row.escrow < 0) (.negativeBalance row)

def writeRow (s : P2PState) (key : FundingKey) (row : FundingRow) (entries : List EscrowEntry) :
    P2PState :=
  { s with balances := Function.update s.balances key row, ledger := s.ledger ++ entries }

def escrowLocked (s : P2PState) (key : FundingKey) (amount : ℚ) : P2PState :=
  let row := s.balances key
  s.writeRow key ⟨row.available - amount, row.escrow + amount⟩
    [⟨key.userId, key.currencyId, amount, 0, toAmount row.available,
        toAmount (row.available - amount), .lock, none, .available⟩,
      ⟨key.userId, key.currencyId, 0, amount, toAmount row.escrow,
        toAmount (row.escrow + amount), .lock, none, .pending⟩]

/-- Moves an amount from the available to the escrow balance of one row. -/
def lockInEscrow (s : P2PState) (key : FundingKey) (amount : ℚ) : Except P2PError P2PState := do
  refuseIf ((s.balances key).available < amount)
    (.noRowUpdated "moveToEscrow" key.userId key.currencyId)
  let s := s.escrowLocked key amount
  assertBalanceInvariant (s.balances key)
  pure s

def escrowDebited (s : P2PState) (key : FundingKey) (amount : ℚ) (escrowId : EscrowId) :
    P2PState :=
  let row := s.balances key
  s.writeRow key { row with escrow := row.escrow - amount }
    [⟨key.userId, key.currencyId, amount, 0, toAmount row.escrow,
      toAmount (row.escrow - amount), .release, some escrowId, .pending⟩]

def debitEscrow (s : P2PState) (operation : String) (key : FundingKey) (amount : ℚ)
    (escrowId : EscrowId) : Except P2PError P2PState := do
  refuseIf ((s.balances key).escrow < amount) (.noRowUpdated operation key.userId key.currencyId)
  let s := s.escrowDebited key amount escrowId
  assertBalanceInvariant (s.balances key)
  pure s

def availableCredited (s : P2PState) (key : FundingKey) (amount : ℚ) (escrowId : EscrowId) :
    P2PState :=
  let row := s.balances key
  s.writeRow key { row with available := row.available + amount }
    [⟨key.userId, key.currencyId, 0, amount, toAmount row.available,
      toAmount (row.available + amount), .release, some escrowId, .available⟩]

def creditAvailable (s : P2PState) (key : FundingKey) (amount : ℚ) (escrowId : EscrowId) :
    Except P2PError P2PState := do
  let s := s.availableCredited key amount escrowId
  assertBalanceInvariant (s.balances key)
  pure s

/-- The chain of the row that an escrow is taken from: that of the token, and the global one if
that row has too little. -/
def lockChain (cfg : P2PConfig) (s : P2PState) (sellerId : UserId) (currencyId : CurrencyId)
    (tokenId : TokenId) (amount : ℚ) : ChainId :=
  let chainId := cfg.chainIdOfToken tokenId
  if (s.balances ⟨sellerId, currencyId, chainId⟩).available < amount ∧ chainId ≠ chainIdGlobal
  then chainIdGlobal
  else chainId

def moveToEscrow (cfg : P2PConfig) (s : P2PState) (sellerId : UserId) (tokenId : TokenId)
    (amount : ℚ) : Except P2PError (P2PState × EscrowId) := do
  let amount := toAmount amount
  refuseIf (amount ≤ 0) (.message "moveToEscrow: amount must be positive")
  let currencyId ← orRefuse (cfg.currencyIdForToken tokenId)
    (.message ("moveToEscrow: no currency_id for token " ++ toString tokenId))
  let chainId := s.lockChain cfg sellerId currencyId tokenId amount
  let s ← s.lockInEscrow ⟨sellerId, currencyId, chainId⟩ amount
  pure ({ s with escrows := s.escrows ++ [⟨sellerId, currencyId, amount, .locked, false⟩] },
    s.escrows.length)

/-- The row that a release or refund pays from and to, whatever the chain of the token. -/
def globalKey (userId : UserId) (e : Escrow) : FundingKey := ⟨userId, e.currencyId, chainIdGlobal⟩

/-- The end of an escrow: the escrow balance of the seller pays the user. -/
def closeEscrow (s : P2PState) (operation : String) (escrowId : EscrowId) (status : EscrowStatus)
    (payee : Escrow → UserId) : Except P2PError (P2PState × Bool) := do
  let e ← orRefuse s.escrows[escrowId]? (.message "Escrow not found")
  if e.status ≠ .locked then
    pure (s, true)
  else
    refuseIf (e.adminFrozen = true) (.message "ESCROW_ADMIN_FROZEN")
    let amount := toAmount e.amount
    let s := { s with escrows := s.escrows.set escrowId { e with status := status } }
    let s ← s.debitEscrow operation (globalKey e.userId e) amount escrowId
    let s ← s.creditAvailable (globalKey (payee e) e) amount escrowId
    pure (s, false)

def releaseFromEscrow (s : P2PState) (escrowId : EscrowId) (buyerId : UserId) :
    Except P2PError (P2PState × Bool) :=
  s.closeEscrow "releaseFromEscrow.seller" escrowId .released fun _ => buyerId

def refundFromEscrow (s : P2PState) (escrowId : EscrowId) : Except P2PError (P2PState × Bool) :=
  s.closeEscrow "refundFromEscrow.sellerDebit" escrowId .refunded Escrow.userId

/-- `freezeEscrow`: only a locked escrow can be frozen. -/
def freezeEscrow (s : P2PState) (escrowId : EscrowId) : Except P2PError P2PState := do
  let e ← orRefuse s.escrows[escrowId]? (.message "Escrow not found")
  refuseIf (e.status ≠ .locked)
    (.message "Escrow is not locked (already released or refunded)")
  pure { s with escrows := s.escrows.set escrowId { e with adminFrozen := true } }

def unfreezeEscrow (s : P2PState) (escrowId : EscrowId) : Except P2PError P2PState := do
  let e ← orRefuse s.escrows[escrowId]? (.message "Escrow not found")
  pure { s with escrows := s.escrows.set escrowId { e with adminFrozen := false } }

def createAd (s : P2PState) (userId : UserId) (type : P2PAdType) (tokenId : TokenId)
    (minAmount maxAmount totalAmount : ℚ) (paymentTimeLimit : ℕ) : Except P2PError P2PState := do
  refuseIf (maxAmount < minAmount) (.message "Minimum amount cannot exceed maximum amount")
  refuseIf (totalAmount < maxAmount) (.message "Maximum order amount cannot exceed total amount")
  pure { s with ads := s.ads ++ [{
    userId := userId
    type := type
    tokenId := tokenId
    minAmount := minAmount
    maxAmount := maxAmount
    availableAmount := totalAmount
    totalAmount := totalAmount
    paymentTimeLimit := paymentTimeLimit
    status := .active }] }

def ownAd (s : P2PState) (adId : AdId) (userId : UserId) : Except P2PError P2PAd :=
  orRefuse (s.ads[adId]?.filter fun ad => ad.userId = userId) (.message "Ad not found")

def updateAd (s : P2PState) (adId : AdId) (userId : UserId) (minAmount maxAmount : Option ℚ)
    (status : Option P2PAdStatus) : Except P2PError P2PState := do
  let ad ← s.ownAd adId userId
  refuseIf (ad.status = .completed ∨ ad.status = .cancelled) (.message "Cannot update this ad")
  refuseIf (maxAmount.any fun m => m < ad.availableAmount)
    (.message "max_amount cannot be less than available_amount")
  pure { s with ads := s.ads.set adId { ad with
    minAmount := minAmount.getD ad.minAmount
    maxAmount := maxAmount.getD ad.maxAmount
    status := status.getD ad.status } }

def cancelAd (s : P2PState) (adId : AdId) (userId : UserId) : Except P2PError P2PState := do
  let ad ← s.ownAd adId userId
  refuseIf (ad.status ≠ .active ∧ ad.status ≠ .paused) (.message "Cannot cancel this ad")
  refuseIf (s.orders.any fun o => o.adId == adId && !o.status.isTerminal)
    (.message "Cannot cancel ad with active orders")
  pure { s with ads := s.ads.set adId { ad with status := .cancelled } }

/-- What is returned to the advertisement of an order that was not carried out. -/
def restoreLiquidity (s : P2PState) (o : P2POrder) (ad : P2PAd) : Except P2PError P2PState := do
  let ad := ad.restored o.quantity
  refuseIf (ad.totalAmount < ad.availableAmount)
    (.message "Liquidity restoration would exceed ad total")
  pure { s with ads := s.ads.set o.adId ad }

def p2pQuantityMax : ℚ := 10 ^ 15

def assertValidP2PQuantity (quantity : ℚ) : Except P2PError Unit := do
  refuseIf (quantity ≤ 0) (.message "Quantity must be positive")
  refuseIf (p2pQuantityMax < quantity) (.message "Quantity exceeds maximum")

def p2pMaxOpenEscrowsPerUser : ℕ := 30

def p2pMaxEscrowTotalPerUser : ℚ := 500000

def lockedEscrows (s : P2PState) (userId : UserId) : List Escrow :=
  s.escrows.filter fun e => e.userId == userId && e.status == .locked

def assertP2PEscrowCapInTransaction (s : P2PState) (sellerId : UserId) (additional : ℚ) :
    Except P2PError Unit := do
  refuseIf (p2pMaxOpenEscrowsPerUser ≤ (s.lockedEscrows sellerId).length)
    (.message "P2P_ESCROW_CAP_EXCEEDED")
  let total := ((s.lockedEscrows sellerId).map Escrow.amount).sum
  refuseIf (p2pMaxEscrowTotalPerUser < total + additional)
    (.message "P2P_ESCROW_TOTAL_CAP_EXCEEDED")

def newOrder (cfg : P2PConfig) (adId : AdId) (ad : P2PAd) (buyerId sellerId : UserId)
    (quantity : ℚ) (escrowId : EscrowId) (now : ℕ) : P2POrder where
  adId := adId
  buyerId := buyerId
  sellerId := sellerId
  quantity := numericColumn cfg.quantityScale quantity
  escrowId := escrowId
  status := .paymentPending
  expiresAt := now + ad.paymentTimeLimit * 60 * 1000
  paymentConfirmedAt := none
  paymentVerificationStatus := none

def createOrder (cfg : P2PConfig) (s : P2PState) (userId : UserId) (adId : AdId) (quantity : ℚ)
    (now : ℕ) : Except P2PError P2PState := do
  let ad ← orRefuse s.ads[adId]? (.message "Ad not found")
  assertValidP2PQuantity quantity
  refuseIf (ad.status ≠ .active) (.message "Ad is not active")
  refuseIf (ad.availableAmount ≤ 0) (.message "Ad has no available amount")
  refuseIf (ad.userId = userId) (.message "Cannot trade with your own ad")
  refuseIf (quantity < ad.minAmount ∨ ad.maxAmount < quantity)
    (.amountRange ad.minAmount ad.maxAmount)
  refuseIf (ad.availableAmount < quantity) (.message "Insufficient available amount")
  let buyerId := ad.buyerFor userId
  let sellerId := ad.sellerFor userId
  s.assertP2PEscrowCapInTransaction sellerId quantity
  let (s, escrowId) ← s.moveToEscrow cfg sellerId ad.tokenId quantity
  let available := roundDown 8 (ad.availableAmount - quantity)
  refuseIf (available < 0) (.message "Insufficient available amount")
  pure { s with
    orders := s.orders ++ [newOrder cfg adId ad buyerId sellerId quantity escrowId now]
    ads := s.ads.set adId { ad with availableAmount := available } }

def setOrder (s : P2PState) (orderId : OrderId) (o : P2POrder) : P2PState :=
  { s with orders := s.orders.set orderId o }

def order (s : P2PState) (orderId : OrderId) : Except P2PError P2POrder :=
  orRefuse s.orders[orderId]? (.message "Order not found")

/-- The proof of a payment: whether there is a file, and the length of the reference. -/
structure PaymentProof where
  hasFile : Bool
  referenceLength : ℕ

def checkProof (cfg : P2PConfig) (proof : PaymentProof) : Except P2PError Unit :=
  if cfg.requirePaymentProof then do
    refuseIf (proof.hasFile = false) (.message "PAYMENT_PROOF_REQUIRED")
    refuseIf (proof.referenceLength = 0 ∨ 256 < proof.referenceLength)
      (.message "TRANSACTION_REFERENCE_REQUIRED")
  else refuseIf (256 < proof.referenceLength) (.message "TRANSACTION_REFERENCE_TOO_LONG")

def confirmPayment (cfg : P2PConfig) (s : P2PState) (orderId : OrderId) (userId : UserId)
    (proof : PaymentProof) (now : ℕ) : Except P2PError P2PState := do
  let o ← s.order orderId
  refuseIf (o.buyerId ≠ userId) (.message "Only buyer can confirm payment")
  if o.status = .paymentConfirmed then
    pure s
  else
    refuseIf (o.status ≠ .paymentPending) (.message "Invalid order status")
    checkProof cfg proof
    pure (s.setOrder orderId { o with
      status := .paymentConfirmed
      paymentConfirmedAt := some now
      paymentVerificationStatus :=
        if cfg.requirePaymentProof then some .pending else o.paymentVerificationStatus })

def sellerVerifyPayment (s : P2PState) (orderId : OrderId) (sellerUserId : UserId) :
    Except P2PError P2PState := do
  let o ← s.order orderId
  refuseIf (o.sellerId ≠ sellerUserId) (.message "Only seller can verify payment")
  refuseIf (o.status ≠ .paymentConfirmed) (.message "Invalid order status")
  refuseIf (o.paymentVerificationStatus ≠ some .pending)
    (.message "Payment is not pending seller verification")
  pure (s.setOrder orderId { o with paymentVerificationStatus := some .verified })

/-- Who may release: the seller, or the SLA worker in the name of the seller after a time. -/
def checkReleaser (cfg : P2PConfig) (o : P2POrder) (userId : UserId) (slaAutoRelease : Bool)
    (now : ℕ) : Except P2PError Unit :=
  if slaAutoRelease then do
    refuseIf (userId ≠ o.sellerId) (.message "SLA release validation failed")
    let confirmedAt ← orRefuse o.paymentConfirmedAt (.message "payment_confirmed_at missing")
    refuseIf (now < confirmedAt + cfg.slaReleaseMinutes * 60000)
      (.message "SLA window not elapsed")
  else refuseIf (o.sellerId ≠ userId) (.message "Only seller can release crypto")

def releaseCrypto (cfg : P2PConfig) (s : P2PState) (orderId : OrderId) (userId : UserId)
    (slaAutoRelease : Bool) (now : ℕ) : Except P2PError P2PState := do
  let o ← s.order orderId
  checkReleaser cfg o userId slaAutoRelease now
  if o.status = .completed then
    pure s
  else
    refuseIf (o.status = .cancelled) (.message "Cannot release cancelled order")
    refuseIf (o.status ≠ .paymentConfirmed) (.message "Payment not yet confirmed by buyer")
    refuseIf (slaAutoRelease = false ∧ (o.paymentVerificationStatus = some .pending ∨
      o.paymentVerificationStatus = some .rejected)) (.message "PAYMENT_NOT_VERIFIED")
    let e ← orRefuse s.escrows[o.escrowId]? (.message "Escrow not found")
    refuseIf (e.status ≠ .locked) (.message "Escrow not in locked status")
    refuseIf (e.amount < o.quantity) (.message "Escrow balance insufficient for release")
    let (s, _) ← s.releaseFromEscrow o.escrowId o.buyerId
    pure (s.setOrder orderId { o with status := .completed })

def cancelOrder (s : P2PState) (orderId : OrderId) (userId : UserId) :
    Except P2PError P2PState := do
  let o ← s.order orderId
  if o.status = .cancelled then
    pure s
  else
    refuseIf (o.status ≠ .paymentPending) (.message "Cannot cancel order in current status")
    refuseIf (o.buyerId ≠ userId ∧ o.sellerId ≠ userId)
      (.message "Not authorized to cancel this order")
    let (s, alreadyRefunded) ← s.refundFromEscrow o.escrowId
    if alreadyRefunded then
      pure (s.setOrder orderId { o with status := .cancelled })
    else
      let ad ← orRefuse s.ads[o.adId]? (.message "Ad not found during liquidity restore")
      refuseIf (ad.availableAmount + o.quantity < 0)
        (.message "Liquidity clamp violation: available_amount would be negative")
      let s ← s.restoreLiquidity o ad
      pure (s.setOrder orderId { o with status := .cancelled })

def openDispute (s : P2PState) (orderId : OrderId) (userId : UserId) :
    Except P2PError P2PState := do
  let o ← s.order orderId
  refuseIf (o.buyerId ≠ userId ∧ o.sellerId ≠ userId) (.message "Not authorized to open dispute")
  refuseIf (o.status ≠ .paymentConfirmed) (.message "Cannot dispute order in current status")
  refuseIf (s.disputes.any fun d =>
      d.orderId == orderId && (d.status == .opened || d.status == .underReview))
    (.message "Dispute already exists for this order")
  let s := { s with disputes := s.disputes ++ [(⟨orderId, .opened⟩ : P2PDispute)] }
  pure (s.setOrder orderId { o with
    status := .disputed
    paymentVerificationStatus :=
      if o.paymentVerificationStatus = some .pending then some .rejected
      else o.paymentVerificationStatus })

/-- The order and its escrow under a resolution; the status of the order is not checked. -/
def settleDispute (s : P2PState) (orderId : OrderId) (o : P2POrder) :
    DisputeResolution → Except P2PError P2PState
  | .favorBuyer => do
      let (s, _) ← s.releaseFromEscrow o.escrowId o.buyerId
      pure (s.setOrder orderId { o with
        status := .completed
        paymentVerificationStatus := some .verified })
  | _ => do
      let (s, alreadyRefunded) ← s.refundFromEscrow o.escrowId
      let s ←
        match (if alreadyRefunded then none else s.ads[o.adId]?) with
        | some ad => s.restoreLiquidity o ad
        | none => pure s
      pure (s.setOrder orderId { o with
        status := .cancelled
        paymentVerificationStatus := some .rejected })

def resolveDispute (s : P2PState) (disputeId : DisputeId) (resolution : DisputeResolution) :
    Except P2PError P2PState := do
  let d ← orRefuse s.disputes[disputeId]? (.message "Dispute not found")
  refuseIf (d.isActive = false) (.message "Dispute already resolved")
  let o ← s.order d.orderId
  let s ← s.settleDispute d.orderId o resolution
  pure { s with disputes := s.disputes.set disputeId { d with status := .resolved } }

/-- The status that the job takes for `payment_pending`. -/
def expiryStatus : String := "awaiting_payment"

def expireOrder (s : P2PState) (orderId : OrderId) (now : ℕ) : Except P2PError P2PState := do
  let o ← s.order orderId
  if o.status.text ≠ expiryStatus ∨ now ≤ o.expiresAt then
    pure s
  else
    let (s, alreadyRefunded) ← s.refundFromEscrow o.escrowId
    let s := s.setOrder orderId { o with status := .expired }
    match (if alreadyRefunded then none else s.ads[o.adId]?) with
    | some ad => pure { s with ads := s.ads.set o.adId (ad.restored o.quantity) }
    | none => pure s

end P2PState

/-- A call of a service. The other services change available balances. -/
inductive P2PAction
  | createAd (refusal : Option P2PError) (userId : UserId) (type : P2PAdType) (tokenId : TokenId)
      (minAmount maxAmount totalAmount : ℚ) (paymentTimeLimit : ℕ)
  | updateAd (adId : AdId) (userId : UserId) (minAmount maxAmount : Option ℚ)
      (status : Option P2PAdStatus)
  | cancelAd (adId : AdId) (userId : UserId)
  | createOrder (refusal : Option P2PError) (userId : UserId) (adId : AdId) (quantity : ℚ)
      (now : ℕ)
  | confirmPayment (orderId : OrderId) (userId : UserId) (proof : P2PState.PaymentProof)
      (now : ℕ)
  | sellerVerifyPayment (orderId : OrderId) (userId : UserId)
  | releaseCrypto (orderId : OrderId) (userId : UserId) (slaAutoRelease : Bool) (now : ℕ)
  | cancelOrder (orderId : OrderId) (userId : UserId)
  | openDispute (orderId : OrderId) (userId : UserId)
  | resolveDispute (disputeId : DisputeId) (resolution : DisputeResolution)
  | freezeEscrow (escrowId : EscrowId)
  | unfreezeEscrow (escrowId : EscrowId)
  | expire (orderId : OrderId) (now : ℕ)
  | other (key : FundingKey) (available : ℚ≥0)

namespace P2PState

def init (available : FundingKey → ℚ≥0) : P2PState :=
  ⟨[], [], [], [], fun key => ⟨available key, 0⟩, []⟩

def unlessRefused (refusal : Option P2PError) (r : Except P2PError P2PState) :
    Except P2PError P2PState :=
  match refusal with
  | some e => .error e
  | none => r

def call (cfg : P2PConfig) (s : P2PState) : P2PAction → Except P2PError P2PState
  | .createAd refusal userId type tokenId minAmount maxAmount totalAmount paymentTimeLimit =>
    unlessRefused refusal
      (s.createAd userId type tokenId minAmount maxAmount totalAmount paymentTimeLimit)
  | .updateAd adId userId minAmount maxAmount status =>
    s.updateAd adId userId minAmount maxAmount status
  | .cancelAd adId userId => s.cancelAd adId userId
  | .createOrder refusal userId adId quantity now =>
    unlessRefused refusal (s.createOrder cfg userId adId quantity now)
  | .confirmPayment orderId userId proof now => s.confirmPayment cfg orderId userId proof now
  | .sellerVerifyPayment orderId userId => s.sellerVerifyPayment orderId userId
  | .releaseCrypto orderId userId slaAutoRelease now =>
    s.releaseCrypto cfg orderId userId slaAutoRelease now
  | .cancelOrder orderId userId => s.cancelOrder orderId userId
  | .openDispute orderId userId => s.openDispute orderId userId
  | .resolveDispute disputeId resolution => s.resolveDispute disputeId resolution
  | .freezeEscrow escrowId => s.freezeEscrow escrowId
  | .unfreezeEscrow escrowId => s.unfreezeEscrow escrowId
  | .expire orderId now => s.expireOrder orderId now
  | .other key available =>
    .ok { s with
      balances := Function.update s.balances key ⟨available, (s.balances key).escrow⟩ }

/-- A call that fails is rolled back. -/
def step (cfg : P2PConfig) (s : P2PState) (act : P2PAction) : P2PState :=
  match s.call cfg act with
  | .ok s' => s'
  | .error _ => s

def run (cfg : P2PConfig) (available : FundingKey → ℚ≥0) (acts : List P2PAction) : P2PState :=
  acts.foldl (step cfg) (init available)

end P2PState

end MetherCEX
