import MetherCEX.Lib.Table
import MetherCEX.P2P.Model

/-!
# What a call changes

`resolveDispute` does not look at the status of the order, and a release or refund of an escrow
that is closed already answers with success.
-/

namespace MetherCEX

open Checks Decimal Run Table

namespace P2PState

/-- What was credited to available balances for an escrow, by the ledger. -/
def payouts (s : P2PState) (escrowId : EscrowId) : List (UserId × ℚ) :=
  (s.ledger.filter fun x => x.referenceId == some escrowId && x.balanceType == .available).map
    fun x => (x.userId, x.credit)

def Agrees (o : P2POrder) (e : Escrow) (payouts : List (UserId × ℚ)) : Prop :=
  match o.status with
  | .paymentPending | .paymentConfirmed | .disputed => e.status = .locked ∧ payouts = []
  | .completed => e.status = .released ∧ payouts = [(o.buyerId, e.amount)]
  | .cancelled | .expired => e.status = .refunded ∧ payouts = [(o.sellerId, e.amount)]

variable {e : Escrow} {o : P2POrder} {s : P2PState} {r : P2PState × Bool}

theorem Agrees.of_open {ps : List (UserId × ℚ)} (h : Agrees o e ps)
    (hopen : o.status.isTerminal = false) : e.status = .locked ∧ ps = [] := by
  unfold Agrees at h
  cases hs : o.status with
  | paymentPending | paymentConfirmed | disputed => simpa only [hs] using h
  | completed | cancelled | expired => exact absurd (hs ▸ hopen) (by decide)

theorem agrees_of_open (hopen : o.status.isTerminal = false) (he : e.status = .locked) :
    Agrees o e [] := by
  unfold Agrees
  cases hs : o.status with
  | paymentPending | paymentConfirmed | disputed => exact ⟨he, rfl⟩
  | completed | cancelled | expired => exact absurd (hs ▸ hopen) (by decide)

/-- Every order has the escrow of its number, and the two agree. -/
structure Linked (s : P2PState) : Prop where
  length : s.escrows.length = s.orders.length
  escrowId : ∀ (id : OrderId) (o : P2POrder), s.orders[id]? = some o → o.escrowId = id
  seller : ∀ (id : OrderId) (o : P2POrder) (e : Escrow),
    s.orders[id]? = some o → s.escrows[id]? = some e → e.userId = o.sellerId
  amount : ∀ e ∈ s.escrows, toAmount e.amount = e.amount
  agrees : ∀ (id : OrderId) (o : P2POrder) (e : Escrow),
    s.orders[id]? = some o → s.escrows[id]? = some e → Agrees o e (s.payouts id)
  ledger : ∀ x ∈ s.ledger, ∀ id ∈ x.referenceId, id < s.orders.length

/-- The disputes that are not resolved belong to the orders in the status `disputed`, one to
each. -/
structure DisputesOpen (s : P2PState) : Prop where
  active : ∀ d ∈ s.disputes, d.isActive = true →
    ∃ o, s.orders[d.orderId]? = some o ∧ o.status = .disputed
  unique : ∀ (i j : DisputeId) (d d' : P2PDispute),
    s.disputes[i]? = some d → s.disputes[j]? = some d' →
    d.isActive = true → d'.isActive = true → d.orderId = d'.orderId → i = j
  disputed : ∀ (id : OrderId) (o : P2POrder), s.orders[id]? = some o → o.status = .disputed →
    ∃ d ∈ s.disputes, d.isActive = true ∧ d.orderId = id

namespace Linked

variable {s : P2PState} (h : s.Linked) {id : OrderId} {o : P2POrder}
include h

theorem exists_escrow (hget : s.orders[id]? = some o) : ∃ e, s.escrows[id]? = some e := by
  have hlt : id < s.escrows.length := h.length ▸ lt_length_of_getElem? hget
  exact ⟨_, List.getElem?_eq_getElem hlt⟩

end Linked

section Rows

variable (s : P2PState) (key : FundingKey) (amount : ℚ) (escrowId : EscrowId) (key' : FundingKey)

theorem available_availableCredited : ((s.availableCredited key amount escrowId).balances
    key').available = (s.balances key').available + if key' = key then amount else 0 := by
  by_cases h : key' = key
  · subst h
    simp [availableCredited, writeRow]
  · simp [availableCredited, writeRow, h]

theorem escrow_availableCredited : ((s.availableCredited key amount escrowId).balances key').escrow
    = (s.balances key').escrow := by
  by_cases h : key' = key
  · subst h
    simp [availableCredited, writeRow]
  · simp [availableCredited, writeRow, h]

theorem available_escrowDebited : ((s.escrowDebited key amount escrowId).balances key').available =
    (s.balances key').available := by
  by_cases h : key' = key
  · subst h
    simp [escrowDebited, writeRow]
  · simp [escrowDebited, writeRow, h]

theorem escrow_escrowDebited : ((s.escrowDebited key amount escrowId).balances key').escrow =
    (s.balances key').escrow - if key' = key then amount else 0 := by
  by_cases h : key' = key
  · subst h
    simp [escrowDebited, writeRow]
  · simp [escrowDebited, writeRow, h]

theorem available_escrowLocked : ((s.escrowLocked key amount).balances key').available =
    (s.balances key').available - if key' = key then amount else 0 := by
  by_cases h : key' = key
  · subst h
    simp [escrowLocked, writeRow]
  · simp [escrowLocked, writeRow, h]

theorem escrow_escrowLocked : ((s.escrowLocked key amount).balances key').escrow =
    (s.balances key').escrow + if key' = key then amount else 0 := by
  by_cases h : key' = key
  · subst h
    simp [escrowLocked, writeRow]
  · simp [escrowLocked, writeRow, h]

end Rows

/-- A locked escrow after it was closed: the escrow balance of the seller has paid the user. -/
def closed (s : P2PState) (escrowId : EscrowId) (e : Escrow) (status : EscrowStatus)
    (payee : UserId) : P2PState :=
  let s' := { s with escrows := s.escrows.set escrowId { e with status := status } }
  (s'.escrowDebited (globalKey e.userId e) (toAmount e.amount) escrowId).availableCredited
    (globalKey payee e) (toAmount e.amount) escrowId

section Closed

variable (s : P2PState) (escrowId : EscrowId) (e : Escrow) (status : EscrowStatus)
  (payee : UserId)

@[simp] theorem orders_closed : (s.closed escrowId e status payee).orders = s.orders := rfl

@[simp] theorem ads_closed : (s.closed escrowId e status payee).ads = s.ads := rfl

@[simp] theorem disputes_closed : (s.closed escrowId e status payee).disputes = s.disputes := rfl

@[simp] theorem escrows_closed :
    (s.closed escrowId e status payee).escrows =
      s.escrows.set escrowId { e with status := status } := rfl

theorem available_closed (key : FundingKey) :
    ((s.closed escrowId e status payee).balances key).available =
      (s.balances key).available + if key = globalKey payee e then toAmount e.amount else 0 := by
  rw [closed, available_availableCredited, available_escrowDebited]

theorem escrow_closed (key : FundingKey) : ((s.closed escrowId e status payee).balances key).escrow
    = (s.balances key).escrow - if key = globalKey e.userId e then toAmount e.amount else 0 := by
  rw [closed, escrow_availableCredited, escrow_escrowDebited]

theorem payouts_closed_self : (s.closed escrowId e status payee).payouts escrowId =
    s.payouts escrowId ++ [(payee, toAmount e.amount)] := by
  simp [payouts, closed, availableCredited, escrowDebited, writeRow, globalKey]

theorem payouts_closed_of_ne {id : EscrowId} (h : id ≠ escrowId) :
    (s.closed escrowId e status payee).payouts id = s.payouts id := by
  simp [payouts, closed, availableCredited, escrowDebited, writeRow, Ne.symm h]

end Closed

theorem assertBalanceInvariant_bind_eq_ok {row : FundingRow}
    {β : Type} {f : Unit → Except P2PError β} {b : β} : (assertBalanceInvariant row >>= f) = .ok b ↔
    (0 ≤ row.available ∧ 0 ≤ row.escrow) ∧ f () = .ok b := by
  rw [assertBalanceInvariant, refuseIf_bind_eq_ok, not_or, not_lt, not_lt]

/-- A locked escrow that is not frozen is closed if the escrow balance of the seller in the
global row is enough and no balance is negative. -/
theorem closeEscrow_of_locked {operation : String} {escrowId : EscrowId} {status : EscrowStatus}
    {payee : Escrow → UserId} (hget : s.escrows[escrowId]? = some e) (hlocked : e.status =
    .locked) : s.closeEscrow operation escrowId status payee = .ok r ↔ e.adminFrozen = false ∧
    toAmount e.amount ≤ (s.balances (globalKey e.userId e)).escrow ∧ 0 ≤ (s.balances
    (globalKey e.userId e)).available ∧ (0 ≤ ((s.closed escrowId e status (payee e)).balances
    (globalKey (payee e) e)).available ∧ 0 ≤ ((s.closed escrowId e status (payee e)).balances
    (globalKey (payee e) e)).escrow) ∧ (s.closed escrowId e status (payee e), false) = r := by
  unfold closeEscrow
  simp only [orRefuse_bind_eq_ok, hget, Option.some.injEq, exists_eq_left', hlocked, ne_eq,
    not_true_eq_false, if_false, refuseIf_bind_eq_ok, Bool.not_eq_true, debitEscrow,
    creditAvailable, bind_assoc, pure_bind, assertBalanceInvariant_bind_eq_ok, not_lt, pure_eq_ok,
    available_escrowDebited, escrow_escrowDebited, if_true]
  constructor
  · rintro ⟨hfrozen, hfunds, ⟨havailable, -⟩, hpayee, hr⟩
    exact ⟨hfrozen, hfunds, havailable, hpayee, hr⟩
  · rintro ⟨hfrozen, hfunds, havailable, hpayee, hr⟩
    exact ⟨hfrozen, hfunds, ⟨havailable, sub_nonneg.mpr hfunds⟩, hpayee, hr⟩

inductive Outcome
  | released
  | refunded

namespace Outcome

def escrowStatus : Outcome → EscrowStatus
  | .released => .released
  | .refunded => .refunded

def orderStatus : Outcome → P2POrderStatus
  | .released => .completed
  | .refunded => .cancelled

def payee (o : P2POrder) : Outcome → UserId
  | .released => o.buyerId
  | .refunded => o.sellerId

def close (s : P2PState) (o : P2POrder) : Outcome → Except P2PError (P2PState × Bool)
  | .released => s.releaseFromEscrow o.escrowId o.buyerId
  | .refunded => s.refundFromEscrow o.escrowId

/-- After a refund the advertisement has the quantity again, if there is one. -/
inductive Restores (ads : List P2PAd) (o : P2POrder) : Outcome → List P2PAd → Prop
  | unchanged (out : Outcome) : Restores ads o out ads
  | restored {ad : P2PAd} (hget : ads[o.adId]? = some ad)
      (hle : ad.availableAmount + o.quantity ≤ ad.totalAmount) :
      Restores ads o .refunded (ads.set o.adId (ad.restored o.quantity))

end Outcome

theorem Linked.close_eq_ok (h : s.Linked) {id : OrderId} (hget : s.orders[id]? = some o)
    (hopen : o.status.isTerminal = false) (he : s.escrows[id]? = some e) {out : Outcome} :
    out.close s o = .ok r ↔ e.adminFrozen = false ∧ toAmount e.amount ≤
    (s.balances (globalKey e.userId e)).escrow ∧ 0 ≤ (s.balances (globalKey e.userId e)).available ∧
    (0 ≤ ((s.closed id e out.escrowStatus (out.payee o)).balances (globalKey (out.payee o)
    e)).available ∧ 0 ≤ ((s.closed id e out.escrowStatus (out.payee o)).balances (globalKey
    (out.payee o) e)).escrow) ∧ (s.closed id e out.escrowStatus (out.payee o), false) = r := by
  have hlocked := ((h.agrees id o e hget he).of_open hopen).1
  have hseller := h.seller id o e hget he
  cases out with
  | released =>
    rw [Outcome.close, releaseFromEscrow, h.escrowId id o hget]
    exact closeEscrow_of_locked he hlocked
  | refunded =>
    rw [Outcome.close, refundFromEscrow, h.escrowId id o hget, Outcome.payee, ← hseller]
    exact closeEscrow_of_locked he hlocked

structure EndsDisputes (ds : List P2PDispute) (orderId : OrderId) (ds' : List P2PDispute) :
    Prop where
  kept : ∀ (i : DisputeId) (d : P2PDispute), ds'[i]? = some d → d.isActive = true →
    ds[i]? = some d ∧ d.orderId ≠ orderId
  others : ∀ d ∈ ds, d.isActive = true → d.orderId ≠ orderId → d ∈ ds'

/-- The state after an order was created, with the row its escrow was taken from. -/
def created (cfg : P2PConfig) (s : P2PState) (userId : UserId) (adId : AdId) (ad : P2PAd)
    (quantity : ℚ) (now : ℕ) (key : FundingKey) : P2PState :=
  { s.escrowLocked key (toAmount quantity) with
    escrows := s.escrows ++ [⟨key.userId, key.currencyId, toAmount quantity, .locked, false⟩]
    orders := s.orders ++ [newOrder cfg adId ad (ad.buyerFor userId) (ad.sellerFor userId)
      quantity s.escrows.length now]
    ads := s.ads.set adId
      { ad with availableAmount := roundDown 8 (ad.availableAmount - quantity) } }

inductive Change (cfg : P2PConfig) (s : P2PState) : P2PAction → P2PState → Prop
  | same {act : P2PAction} : Change cfg s act s
  | adCreated {act : P2PAction} {ad : P2PAd} (h : ad.availableAmount = ad.totalAmount) :
      Change cfg s act { s with ads := s.ads ++ [ad] }
  | adChanged {act : P2PAction} {adId : AdId} {ad ad' : P2PAd} (hget : s.ads[adId]? = some ad)
      (havailable : ad'.availableAmount = ad.availableAmount)
      (htotal : ad'.totalAmount = ad.totalAmount) :
      Change cfg s act { s with ads := s.ads.set adId ad' }
  | created {refusal : Option P2PError} {userId : UserId} {adId : AdId} {quantity : ℚ} {now : ℕ}
      {ad : P2PAd} {currencyId : CurrencyId} {key : FundingKey} (had : s.ads[adId]? = some ad)
      (hquantity : 0 < quantity) (hle : quantity ≤ ad.availableAmount)
      (hcurrency : cfg.currencyIdForToken ad.tokenId = some currencyId)
      (hkey : key = ⟨ad.sellerFor userId, currencyId,
        s.lockChain cfg (ad.sellerFor userId) currencyId ad.tokenId (toAmount quantity)⟩)
      (hfunds : toAmount quantity ≤ (s.balances key).available) :
      Change cfg s (.createOrder refusal userId adId quantity now)
        (s.created cfg userId adId ad quantity now key)
  | confirmed {act : P2PAction} {id : OrderId} {o : P2POrder} (at? : Option ℕ)
      (v : Option VerificationStatus) (hget : s.orders[id]? = some o)
      (hstatus : o.status = .paymentPending ∨ o.status = .paymentConfirmed)
      (hat : at? = none → o.paymentConfirmedAt = none ∧ o.status = .paymentConfirmed) :
      Change cfg s act (s.setOrder id { o with
        status := .paymentConfirmed, paymentConfirmedAt := at?, paymentVerificationStatus := v })
  | disputed {act : P2PAction} {id : OrderId} {o : P2POrder} (v : Option VerificationStatus)
      (hget : s.orders[id]? = some o) (hstatus : o.status = .paymentConfirmed) :
      Change cfg s act { s with
        orders := s.orders.set id { o with status := .disputed, paymentVerificationStatus := v }
        disputes := s.disputes ++ [⟨id, .opened⟩] }
  | closed {act : P2PAction} {id : OrderId} {o : P2POrder} {e : Escrow}
      {out : Outcome} {ads : List P2PAd} {ds : List P2PDispute} (v : Option VerificationStatus)
      (hget : s.orders[id]? = some o) (hopen : o.status.isTerminal = false)
      (he : s.escrows[id]? = some e)
      (hfunds : toAmount e.amount ≤ (s.balances (globalKey e.userId e)).escrow)
      (hads : out.Restores s.ads o ads) (hdisputes : EndsDisputes s.disputes id ds)
      (hunpaid : o.status = .paymentPending → out = .refunded) :
      Change cfg s act { s.closed id e out.escrowStatus (out.payee o) with
        orders := s.orders.set id
          { o with status := out.orderStatus, paymentVerificationStatus := v }
        ads := ads
        disputes := ds }
  | froze {act : P2PAction} {escrowId : EscrowId} {e : Escrow} (adminFrozen : Bool)
      (hget : s.escrows[escrowId]? = some e) :
      Change cfg s act { s with
        escrows := s.escrows.set escrowId { e with adminFrozen := adminFrozen } }
  | other (key : FundingKey) (available : ℚ≥0) :
      Change cfg s (.other key available) { s with
        balances := Function.update s.balances key ⟨available, (s.balances key).escrow⟩ }

namespace DisputesOpen

variable {s : P2PState} (h : s.DisputesOpen)
include h

theorem ends_of_not_disputed {id : OrderId} {o : P2POrder} (hget : s.orders[id]? = some o)
    (hstatus : o.status ≠ .disputed) : EndsDisputes s.disputes id s.disputes where
  kept i d hd hactive := by
    refine ⟨hd, fun heq => hstatus ?_⟩
    obtain ⟨o', ho', hdisputed⟩ := h.active d (List.mem_of_getElem? hd) hactive
    rw [heq, hget] at ho'
    rwa [Option.some.inj ho']
  others d hd _ _ := hd

theorem ends_of_resolved {i : DisputeId} {d : P2PDispute} (hget : s.disputes[i]? = some d)
    (hactive : d.isActive = true) :
    EndsDisputes s.disputes d.orderId (s.disputes.set i { d with status := .resolved }) where
  kept j d' hd' hactive' := by
    rcases getElem?_set_cases hd' with ⟨-, rfl⟩ | ⟨hne, hd'⟩
    · exact absurd hactive' Bool.false_ne_true
    · refine ⟨hd', fun heq => hne ?_⟩
      exact h.unique j i d' d hd' hget hactive' hactive heq
  others d' hd' hactive' hne := by
    obtain ⟨j, hj⟩ := List.getElem?_of_mem hd'
    have hij : i ≠ j := by
      rintro rfl
      rw [hget] at hj
      exact hne (congrArg P2PDispute.orderId (Option.some.inj hj)).symm
    apply List.mem_of_getElem? (i := j)
    rw [List.getElem?_set_ne hij, hj]

end DisputesOpen

theorem Linked.of_close (h : s.Linked) {id : OrderId} (hget : s.orders[id]? = some o)
    (hopen : o.status.isTerminal = false) {out : Outcome} (hclose : out.close s o = .ok r) :
    ∃ e, s.escrows[id]? = some e ∧ toAmount e.amount ≤ (s.balances (globalKey e.userId e)).escrow ∧
    r = (s.closed id e out.escrowStatus (out.payee o), false) := by
  obtain ⟨e, he⟩ := h.exists_escrow hget
  obtain ⟨-, hfunds, -, -, hr⟩ := (h.close_eq_ok hget hopen he).mp hclose
  exact ⟨e, he, hfunds, hr.symm⟩

section Calls

variable {cfg : P2PConfig} {s s' : P2PState}

variable {userId : UserId} {act : P2PAction} {adId : AdId} {now : ℕ} {orderId : OrderId}

theorem change_of_createAd {type : P2PAdType}
    {tokenId : TokenId} {minAmount maxAmount totalAmount : ℚ} {limit : ℕ} (hcall : s.createAd
    userId type tokenId minAmount maxAmount totalAmount limit = .ok s') : Change cfg s act s' := by
  simp only [createAd, refuseIf_bind_eq_ok, pure_eq_ok] at hcall
  obtain ⟨-, -, rfl⟩ := hcall
  exact .adCreated rfl

theorem ownAd_eq_ok {ad : P2PAd} (hget : s.ownAd adId userId = .ok ad) :
    s.ads[adId]? = some ad := by
  rw [ownAd, orRefuse_eq_ok, Option.filter_eq_some_iff] at hget
  exact hget.1

theorem change_of_updateAd {minAmount maxAmount : Option ℚ} {status : Option P2PAdStatus}
    (hcall : s.updateAd adId userId minAmount maxAmount status = .ok s') : Change cfg s act s' := by
  simp only [updateAd, bind_eq_ok, refuseIf_eq_ok, pure_eq_ok] at hcall
  obtain ⟨ad, hget, -, -, -, -, rfl⟩ := hcall
  exact .adChanged (ownAd_eq_ok hget) rfl rfl

theorem change_of_cancelAd (hcall : s.cancelAd adId userId = .ok s') : Change cfg s act s' := by
  simp only [cancelAd, bind_eq_ok, refuseIf_eq_ok, pure_eq_ok] at hcall
  obtain ⟨ad, hget, -, -, -, -, rfl⟩ := hcall
  exact .adChanged (ownAd_eq_ok hget) rfl rfl

theorem change_of_createOrder {refusal : Option P2PError} {quantity : ℚ}
    (hcall : s.createOrder cfg userId adId quantity now = .ok s') :
    Change cfg s (.createOrder refusal userId adId quantity now) s' := by
  simp only [createOrder, assertValidP2PQuantity, assertP2PEscrowCapInTransaction, moveToEscrow,
    lockInEscrow, bind_assoc, orRefuse_bind_eq_ok, refuseIf_bind_eq_ok, pure_bind,
    assertBalanceInvariant_bind_eq_ok, not_le, not_lt, pure_eq_ok] at hcall
  obtain ⟨ad, had, hquantity, -, -, -, -, -, hle, -, -, -, currencyId, hcurrency, hfunds, -, -,
    rfl⟩ := hcall
  exact .created had hquantity hle hcurrency rfl hfunds

theorem change_of_confirmPayment {proof : PaymentProof}
    (hcall : s.confirmPayment cfg orderId userId proof now = .ok s') : Change cfg s act s' := by
  simp only [confirmPayment, order, orRefuse_bind_eq_ok, refuseIf_bind_eq_ok] at hcall
  obtain ⟨o, hget, -, hcall⟩ := hcall
  by_cases hconfirmed : o.status = .paymentConfirmed
  · rw [if_pos hconfirmed, pure_eq_ok] at hcall
    exact hcall ▸ .same
  · rw [if_neg hconfirmed, refuseIf_bind_eq_ok, not_not] at hcall
    obtain ⟨hpending, hcall⟩ := hcall
    simp only [bind_eq_ok, pure_eq_ok] at hcall
    obtain ⟨-, -, rfl⟩ := hcall
    exact .confirmed _ _ hget (.inl hpending) fun h => absurd h (Option.some_ne_none _)

theorem change_of_sellerVerifyPayment (hcall : s.sellerVerifyPayment orderId userId = .ok s') :
    Change cfg s act s' := by
  simp only [sellerVerifyPayment, order, orRefuse_bind_eq_ok, refuseIf_bind_eq_ok, pure_eq_ok,
    not_not] at hcall
  obtain ⟨o, hget, -, hstatus, -, rfl⟩ := hcall
  rw [hstatus]
  exact .confirmed o.paymentConfirmedAt (some .verified) hget (.inr hstatus) (⟨·, hstatus⟩)

theorem change_of_openDispute (hcall : s.openDispute orderId userId = .ok s') :
    Change cfg s act s' := by
  simp only [openDispute, order, orRefuse_bind_eq_ok, refuseIf_bind_eq_ok, pure_eq_ok,
    not_not] at hcall
  obtain ⟨o, hget, -, hstatus, -, rfl⟩ := hcall
  exact .disputed _ hget hstatus

theorem change_of_freezeEscrow {escrowId : EscrowId} (hcall : s.freezeEscrow escrowId = .ok s') :
    Change cfg s act s' := by
  simp only [freezeEscrow, orRefuse_bind_eq_ok, refuseIf_bind_eq_ok, pure_eq_ok] at hcall
  obtain ⟨e, hget, -, rfl⟩ := hcall
  exact .froze true hget

theorem change_of_unfreezeEscrow {escrowId : EscrowId}
    (hcall : s.unfreezeEscrow escrowId = .ok s') : Change cfg s act s' := by
  simp only [unfreezeEscrow, orRefuse_bind_eq_ok, pure_eq_ok] at hcall
  obtain ⟨e, hget, rfl⟩ := hcall
  exact .froze false hget

theorem text_ne_expiryStatus (status : P2POrderStatus) : status.text ≠ expiryStatus := by
  cases status <;> decide

theorem change_of_expireOrder (hcall : s.expireOrder orderId now = .ok s') :
    Change cfg s act s' := by
  simp only [expireOrder, order, orRefuse_bind_eq_ok] at hcall
  obtain ⟨o, -, hcall⟩ := hcall
  rw [if_pos (.inl (text_ne_expiryStatus o.status)), pure_eq_ok] at hcall
  exact hcall ▸ .same

theorem restoreLiquidity_eq_ok {o : P2POrder} {ad : P2PAd} :
    s.restoreLiquidity o ad = .ok s' ↔ ad.availableAmount + o.quantity ≤ ad.totalAmount ∧
      { s with ads := s.ads.set o.adId (ad.restored o.quantity) } = s' := by
  simp only [restoreLiquidity, refuseIf_bind_eq_ok, not_lt, pure_eq_ok]
  rfl

variable (h : s.Linked) (hd : s.DisputesOpen)
include h hd

theorem change_of_releaseCrypto {sla : Bool}
    (hcall : s.releaseCrypto cfg orderId userId sla now = .ok s') : Change cfg s act s' := by
  simp only [releaseCrypto, order, bind_eq_ok, orRefuse_eq_ok] at hcall
  obtain ⟨o, hget, -, -, hcall⟩ := hcall
  by_cases hcompleted : o.status = .completed
  · rw [if_pos hcompleted, pure_eq_ok] at hcall
    exact hcall ▸ .same
  · rw [if_neg hcompleted] at hcall
    simp only [bind_eq_ok, refuseIf_eq_ok, orRefuse_eq_ok, pure_eq_ok, not_not] at hcall
    obtain ⟨-, -, -, hstatus, -, -, -, -, -, -, -, -, r, hrelease, rfl⟩ := hcall
    have hopen : o.status.isTerminal = false := by rw [hstatus]; rfl
    have hrelease : Outcome.released.close s o = .ok r := hrelease
    obtain ⟨e, he, hfunds, rfl⟩ := h.of_close hget hopen hrelease
    exact .closed o.paymentVerificationStatus hget hopen he hfunds (.unchanged .released)
      (hd.ends_of_not_disputed hget (by rw [hstatus]; decide)) (by simp [hstatus])

theorem change_of_cancelOrder (hcall : s.cancelOrder orderId userId = .ok s') :
    Change cfg s act s' := by
  simp only [cancelOrder, order, orRefuse_bind_eq_ok] at hcall
  obtain ⟨o, hget, hcall⟩ := hcall
  by_cases hcancelled : o.status = .cancelled
  · rw [if_pos hcancelled, pure_eq_ok] at hcall
    exact hcall ▸ .same
  · rw [if_neg hcancelled, refuseIf_bind_eq_ok, refuseIf_bind_eq_ok, bind_eq_ok, not_not] at hcall
    obtain ⟨hstatus, -, r, hrefund, hcall⟩ := hcall
    have hopen : o.status.isTerminal = false := by rw [hstatus]; rfl
    have hrefund : Outcome.refunded.close s o = .ok r := hrefund
    obtain ⟨e, he, hfunds, rfl⟩ := h.of_close hget hopen hrefund
    simp only [Bool.false_eq_true, if_false, bind_eq_ok, orRefuse_eq_ok, refuseIf_eq_ok,
      restoreLiquidity_eq_ok, pure_eq_ok] at hcall
    obtain ⟨ad, had, -, -, s₁, ⟨hle, rfl⟩, rfl⟩ := hcall
    exact .closed o.paymentVerificationStatus hget hopen he hfunds (.restored had hle)
      (hd.ends_of_not_disputed hget (by rw [hstatus]; decide)) fun _ => rfl

omit hd in
theorem change_of_refund {id : OrderId} {o : P2POrder} (hget : s.orders[id]? = some o)
    (hopen : o.status.isTerminal = false) {i : DisputeId} {d : P2PDispute}
    (hended : EndsDisputes s.disputes id (s.disputes.set i d))
    (hsettle : s.settleDispute id o .favorSeller = .ok s') :
    Change cfg s act { s' with disputes := s'.disputes.set i d } := by
  simp only [settleDispute, bind_eq_ok] at hsettle
  obtain ⟨r, hrefund, hsettle⟩ := hsettle
  have hrefund : Outcome.refunded.close s o = .ok r := hrefund
  obtain ⟨e, he, hfunds, rfl⟩ := h.of_close hget hopen hrefund
  simp only [Bool.false_eq_true, if_false, ads_closed] at hsettle
  cases had : s.ads[o.adId]? with
  | none =>
    simp only [had, pure_bind, pure_eq_ok] at hsettle
    subst hsettle
    exact .closed _ hget hopen he hfunds (.unchanged .refunded) hended fun _ => rfl
  | some ad =>
    simp only [had, bind_eq_ok, restoreLiquidity_eq_ok, pure_eq_ok] at hsettle
    obtain ⟨s₁, ⟨hle, rfl⟩, rfl⟩ := hsettle
    exact .closed _ hget hopen he hfunds (.restored had hle) hended fun _ => rfl

theorem change_of_resolveDispute {disputeId : DisputeId} {resolution : DisputeResolution}
    (hcall : s.resolveDispute disputeId resolution = .ok s') : Change cfg s act s' := by
  simp only [resolveDispute, order, bind_eq_ok, orRefuse_eq_ok, refuseIf_eq_ok, pure_eq_ok,
    Bool.not_eq_false] at hcall
  obtain ⟨d, hdispute, -, hactive, o, hget, s₁, hsettle, rfl⟩ := hcall
  obtain ⟨o', ho', hdisputed⟩ := hd.active d (List.mem_of_getElem? hdispute) hactive
  obtain rfl := Option.some.inj (hget.symm.trans ho')
  have hopen : o.status.isTerminal = false := by rw [hdisputed]; rfl
  have hended := hd.ends_of_resolved hdispute hactive
  cases resolution with
  | favorBuyer =>
    simp only [settleDispute, bind_eq_ok, pure_eq_ok] at hsettle
    obtain ⟨r, hrelease, rfl⟩ := hsettle
    have hrelease : Outcome.released.close s o = .ok r := hrelease
    obtain ⟨e, he, hfunds, rfl⟩ := h.of_close hget hopen hrelease
    exact .closed _ hget hopen he hfunds (.unchanged .released) hended (by simp [hdisputed])
  | favorSeller | cancelled => exact change_of_refund h hget hopen hended hsettle

theorem change_of_call (hcall : s.call cfg act = .ok s') : Change cfg s act s' := by
  cases act with
  | createAd refusal =>
    cases refusal with
    | some e => exact absurd hcall (by simp [call, unlessRefused])
    | none => exact change_of_createAd hcall
  | updateAd => exact change_of_updateAd hcall
  | cancelAd => exact change_of_cancelAd hcall
  | createOrder refusal =>
    cases refusal with
    | some e => exact absurd hcall (by simp [call, unlessRefused])
    | none => exact change_of_createOrder hcall
  | confirmPayment => exact change_of_confirmPayment hcall
  | sellerVerifyPayment => exact change_of_sellerVerifyPayment hcall
  | releaseCrypto => exact change_of_releaseCrypto h hd hcall
  | cancelOrder => exact change_of_cancelOrder h hd hcall
  | openDispute => exact change_of_openDispute hcall
  | resolveDispute => exact change_of_resolveDispute h hd hcall
  | freezeEscrow => exact change_of_freezeEscrow hcall
  | unfreezeEscrow => exact change_of_unfreezeEscrow hcall
  | expire => exact change_of_expireOrder hcall
  | other key available =>
    obtain rfl := Except.ok.inj hcall
    exact .other key available

theorem change_of_step (act : P2PAction) : Change cfg s act (s.step cfg act) := by
  unfold step
  split
  case h_1 s' hcall => exact change_of_call h hd hcall
  case h_2 => exact .same

end Calls

end P2PState

end MetherCEX
